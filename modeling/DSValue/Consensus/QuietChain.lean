import DSValue.Consensus.ConnectBlock
import Mathlib.Algebra.Order.BigOperators.Group.List

/-!
# Blocks that hold only a coinbase

`connectBlock_minted` says when a block with nothing but a coinbase is
accepted.  A quiet block is one that in addition repeats the pool and names no
lottery key: it can follow every block whose own key is zero, so that accepted
chains of quiet blocks exist at every height.

The results are about a node whose block hash is the nonce of the header and
whose transaction hash is the lock time.  Both can be chosen freely by the
miner, and blocks and transactions that differ there have different hashes.
-/

namespace DSValue.Consensus.QuietChain

open DSValue.Lib
open DSValue.Lib.Encoding
open DSValue.Core.Serialize
open DSValue.Core.Header
open DSValue.Core.Transaction
open DSValue.Script.Scan
open DSValue.Lotto.Draw
open DSValue.Consensus.TxOut
open DSValue.Consensus.CheckLottoResult
open DSValue.Consensus.CheckBlock
open DSValue.Consensus.ConnectBlock

/-! ## The node -/

/-- The nonce of a serialized header. -/
def nonceHash (bytes : List UInt8) : Uint256 :=
  BitVec.ofNat 256 (leValue ((bytes.drop 76).take 4))

def lockTimeHash (tx : CTransaction) : Uint256 :=
  BitVec.ofNat 256 tx.nLockTime.toNat

theorem getHash_nonceHash (header : CBlockHeader) :
    CBlockHeader.getHash nonceHash header =
      BitVec.ofNat 256 header.nNonce.toNat := by
  have nonce :
      (header.hashRange.drop 76).take 4 = writeUInt32 header.nNonce := by
    rw [CBlockHeader.hashRange, CBlockHeader.serialize,
      List.dropLast_append_of_ne_nil (by simp [writeUint256, littleEndian])]
    have shorter :
        ∀ {width value count : Nat}, width ≤ count →
          (littleEndian width value).drop count = [] := by
      intro width value count enough
      exact List.drop_eq_nil_of_le (by simpa using enough)
    simp [CBlockHeader.serializeFront, writeInt32, writeUint256, writeUInt32,
      List.drop_append, shorter]
  have fits : header.nNonce.toNat < 256 ^ 4 := header.nNonce.toNat_lt
  rw [CBlockHeader.getHash, nonceHash, nonce, writeUInt32,
    leValue_littleEndian, Nat.mod_eq_of_lt fits]

/-- The block hash of the counting node. -/
def nonceOf (block : CBlock) : Uint256 :=
  BitVec.ofNat 256 block.nNonce.toNat

/-- The Bitcoin chain that consists of its first block. -/
def startChain : BitcoinChain where
  tip := .root hashBitcoinStartBlock
  starts := rfl
  distinct := by
    intro first second left right foundLeft foundRight _
    have isFirst := (Lineage.at?_height foundLeft).2
    have isSecond := (Lineage.at?_height foundRight).2
    rw [Lineage.height_root] at isFirst isSecond
    omega
  nonzero := by
    intro height node found
    rw [Lineage.at?] at found
    split_ifs at found
    cases found
    decide

/-- A genesis block on the main network. -/
def genesisBlock : CBlock where
  nVersion := 1
  hashPrevBlock := 0
  hashMerkleRoot := 0
  nTime := 1404273600
  nBits := 0x1f00ffff
  nNonce := 0
  lottoHeader := genesisLottoHeader
  vtx := []

/--
The node: scripts are anyone can spend, and every lottery key is known and
two.
-/
def countingNode (drawEnv : DrawEnv) : Node where
  network := .main
  hash9 := nonceHash
  hashGenesisBlock := 0
  checkpoints := fun _ => none
  bitcoin := startChain
  readLotteryKey := fun _ => some 2
  drawEnv := drawEnv
  chainActive := .root genesisBlock
  txHash := lockTimeHash
  hashPair := fun left right => left + right
  verifyScript := fun scriptSig scriptPubKey _ _ _ =>
    scriptSig = [] ∧ scriptPubKey = [OP_1]
  nTotalBlocksEstimate := 0
  nAdjustedTime := 1500000000

/-- What the node knows when the Bitcoin chain is given. -/
def snapshotOf (bitcoin : BitcoinChain) : Snapshot where
  bitcoin := bitcoin
  readLotteryKey := fun _ => some 2
  nAdjustedTime := 1500000000

theorem blockHash_countingNode
    (drawEnv : DrawEnv) (snapshot : Snapshot) (tip : CBlockIndex)
    (block : CBlock) :
    (during (countingNode drawEnv) snapshot tip).blockHash block =
      nonceOf block :=
  getHash_nonceHash block.toCBlockHeader

/-! ## Sizes -/

theorem length_writeCompactSize (nSize : UInt64) :
    (writeCompactSize nSize).length ≤ 9 := by
  rw [writeCompactSize]
  split_ifs <;> simp

theorem length_writeScript (script : CScript) :
    (writeScript script).length ≤ 9 + script.length := by
  have size := length_writeCompactSize (UInt64.ofNat script.length)
  rw [writeScript, List.length_append]
  omega

theorem length_txin (txin : CTxIn) :
    txin.serialize.length ≤ 49 + txin.scriptSig.length := by
  have script := length_writeScript txin.scriptSig
  simp only [CTxIn.serialize, writeUint256, writeUInt32, List.length_append,
    length_littleEndian]
  omega

theorem length_txout (txout : CTxOut) :
    txout.serialize.length ≤ 17 + txout.scriptPubKey.length := by
  have script := length_writeScript txout.scriptPubKey
  simp only [CTxOut.serialize, writeInt64, List.length_append,
    length_littleEndian]
  omega

/-- A bound for the size of a transaction from its scripts. -/
def sizeBound (tx : CTransaction) : Nat :=
  26 + (tx.vin.map fun txin => 49 + txin.scriptSig.length).sum +
    (tx.vout.map fun txout => 17 + txout.scriptPubKey.length).sum

theorem length_tx (tx : CTransaction) :
    tx.serialize.length ≤ sizeBound tx := by
  have vin :
      (tx.vin.flatMap CTxIn.serialize).length ≤
        (tx.vin.map fun txin => 49 + txin.scriptSig.length).sum := by
    rw [List.length_flatMap]
    exact List.sum_le_sum fun txin _ => length_txin txin
  have vout :
      (tx.vout.flatMap CTxOut.serialize).length ≤
        (tx.vout.map fun txout => 17 + txout.scriptPubKey.length).sum := by
    rw [List.length_flatMap]
    exact List.sum_le_sum fun txout _ => length_txout txout
  have numberIn := length_writeCompactSize (UInt64.ofNat tx.vin.length)
  have numberOut := length_writeCompactSize (UInt64.ofNat tx.vout.length)
  simp only [CTransaction.serialize, sizeBound, writeVector, writeInt32,
    writeUInt32, List.length_append, length_littleEndian]
  omega

theorem length_header (header : CBlockHeader) :
    header.serialize.length ≤
      141 + 36 * header.lottoHeader.mBitcoinHash.size := by
  have number :=
    length_writeCompactSize
      (UInt64.ofNat header.lottoHeader.mBitcoinHash.size)
  have entries :
      (header.lottoHeader.mBitcoinHash.entries.flatMap
        writeMapEntry).length =
        header.lottoHeader.mBitcoinHash.size * 36 := by
    simp [List.length_flatMap, writeMapEntry, writeInt32, writeUint256,
      OrderedMap.size]
  simp only [CBlockHeader.serialize, CBlockHeader.serializeFront, writeMap,
    writeInt32, writeInt64, writeUInt32, writeUint256, List.length_append,
    length_littleEndian, entries]
  omega

theorem length_block (block : CBlock) :
    block.serialize.length ≤
      150 + 36 * block.lottoHeader.mBitcoinHash.size +
        (block.vtx.map sizeBound).sum := by
  have header := length_header block.toCBlockHeader
  have number := length_writeCompactSize (UInt64.ofNat block.vtx.length)
  have transactions :
      (block.vtx.flatMap CTransaction.serialize).length ≤
        (block.vtx.map sizeBound).sum := by
    rw [List.length_flatMap]
    exact List.sum_le_sum fun tx _ => length_tx tx
  rw [CBlock.serialize, writeVector, List.length_append, List.length_append]
  omega

/-! ## Minted blocks -/

/-- The coinbase of a height, with what it pays besides the subsidy. -/
def mintedCoinBase (nHeight : Nat) (prizes : List CTxOut) : CTransaction where
  nVersion := 1
  vin := [⟨⟨0, -1⟩, [0, 0], 0xffffffff⟩]
  vout := ⟨getBlockValue nHeight 0, [OP_1]⟩ :: prizes
  nLockTime := UInt32.ofNat nHeight

/-- A block on top of an index. -/
def mintedBlock
    (pprev : CBlockIndex) (lottoHeader : CLottoHeader)
    (prizes : List CTxOut) (others : List CTransaction) : CBlock where
  nVersion := 2
  hashPrevBlock := nonceOf pprev.item
  hashMerkleRoot :=
    buildMerkleTree (fun left right => left + right)
      ((mintedCoinBase (pprev.height + 1) prizes :: others).map lockTimeHash)
  nTime := 1404273600
  nBits := 0x1f00ffff
  nNonce := UInt32.ofNat (pprev.height + 1)
  lottoHeader := lottoHeader
  vtx := mintedCoinBase (pprev.height + 1) prizes :: others

theorem mintedCoinBase_isCoinBase (nHeight : Nat) (prizes : List CTxOut) :
    (mintedCoinBase nHeight prizes).isCoinBase = true := by
  rfl

theorem lockTimeHash_mintedCoinBase
    {nHeight : Nat} (prizes : List CTxOut) (small : nHeight < 2 ^ 32) :
    lockTimeHash (mintedCoinBase nHeight prizes) =
      BitVec.ofNat 256 nHeight := by
  rw [lockTimeHash, mintedCoinBase, UInt32.toNat_ofNat_of_lt' small]

theorem checkProofOfWork_of_small
    {nHeight : Nat} (small : nHeight < 2 ^ 32) :
    checkProofOfWork .main (BitVec.ofNat 256 nHeight) 0x1f00ffff = true := by
  have target : setCompact 0x1f00ffff = 65535 * 256 ^ 28 := by decide
  have value : (BitVec.ofNat 256 nHeight).toNat = nHeight := by
    rw [BitVec.toNat_ofNat]
    exact Nat.mod_eq_of_lt (lt_trans small (by decide))
  have limit : (65535 * 256 ^ 28 : Int) ≤ proofOfWorkLimit .main := by decide
  have below : (nHeight : Int) ≤ 65535 * 256 ^ 28 := by omega
  simp only [checkProofOfWork, target, value, decide_eq_true_eq]
  exact ⟨by decide, limit, below⟩

theorem ofNat_ne_zero {nHeight : Nat} (small : nHeight + 1 < 2 ^ 32) :
    BitVec.ofNat 256 (nHeight + 1) ≠ 0 := by
  intro isZero
  have value := congrArg BitVec.toNat isZero
  rw [BitVec.toNat_ofNat, Nat.mod_eq_of_lt (lt_trans small (by decide))]
    at value
  exact Nat.succ_ne_zero nHeight value

/-- The coins of a height. -/
def mintedCoins (nHeight : Nat) (prizes : List CTxOut) : CCoins :=
  CCoins.ofTransaction (mintedCoinBase nHeight prizes) (Int32.ofInt nHeight)

/-- What the loop over the transactions holds behind the coinbase. -/
def afterCoinBase (view : CCoinsView) (nHeight : Nat) (prizes : List CTxOut) :
    ConnectState where
  view := view.setCoins (BitVec.ofNat 256 nHeight) (mintedCoins nHeight prizes)
  nFees := 0
  nSigOps := getLegacySigOpCount (mintedCoinBase nHeight prizes)

section Minting

variable {drawEnv : DrawEnv} {snapshot : Snapshot} {pprev : CBlockIndex}
  {view : CCoinsView} {lottoHeader : CLottoHeader} {prizes : List CTxOut}
  {others : List CTransaction}

theorem blockHash_mintedBlock (small : pprev.height + 1 < 2 ^ 32) :
    nonceOf (mintedBlock pprev lottoHeader prizes others) =
      BitVec.ofNat 256 (pprev.height + 1) := by
  rw [nonceOf, mintedBlock, UInt32.toNat_ofNat_of_lt' small]

/-- What a minted block has to satisfy on the counting node. -/
structure Mintable
    (drawEnv : DrawEnv) (snapshot : Snapshot) (pprev : CBlockIndex)
    (view : CCoinsView) (lottoHeader : CLottoHeader) (prizes : List CTxOut)
    (others : List CTransaction) : Prop where
  small : pprev.height + 1 < 2 ^ 32
  late : 1404273600 ≤ snapshot.nAdjustedTime
  size :
    (mintedBlock pprev lottoHeader prizes others).serialize.length ≤
      MAX_BLOCK_SIZE
  number : others.length + 1 ≤ MAX_BLOCK_SIZE
  regular : ∀ tx ∈ others, tx.isCoinBase = false
  transactions :
    ∀ tx ∈ mintedCoinBase (pprev.height + 1) prizes :: others,
      checkTransaction tx = .ok ()
  distinct :
    ((mintedCoinBase (pprev.height + 1) prizes :: others).map
      lockTimeHash).Nodup
  sigOps :
    ((mintedCoinBase (pprev.height + 1) prizes :: others).map
      getLegacySigOpCount).sum ≤ MAX_BLOCK_SIGOPS
  best : nonceOf pprev.item = view.hashBlock
  unspent :
    ∀ tx ∈ mintedCoinBase (pprev.height + 1) prizes :: others,
      view.coins (lockTimeHash tx) = none
  lotto :
    (during (countingNode drawEnv) snapshot pprev).toView.checkLottoResult
      (some pprev) (mintedBlock pprev lottoHeader prizes others) = .ok none

theorem Mintable.checkBlock
    (mintable :
      Mintable drawEnv snapshot pprev view lottoHeader prizes others) :
    (during (countingNode drawEnv) snapshot pprev).checkBlock
      (mintedBlock pprev lottoHeader prizes others) true true = .ok () := by
  have work :
      checkProofOfWork .main
        ((during (countingNode drawEnv) snapshot pprev).blockHash
          (mintedBlock pprev lottoHeader prizes others)) 0x1f00ffff = true := by
    rw [blockHash_countingNode, blockHash_mintedBlock mintable.small]
    exact checkProofOfWork_of_small mintable.small
  have time : 1404273600 ≤ snapshot.nAdjustedTime + 2 * 60 * 60 := by
    have late := mintable.late
    omega
  simp only [Node.checkBlock, bind_eq_ok, require_eq_ok, forM_eq_ok]
  refine ⟨(), ?_, (), ?_, (), ?_, (), ?_, (), mintable.transactions, (),
    decide_eq_true mintable.distinct, (), decide_eq_true mintable.sigOps, ?_⟩
  · rw [Bool.and_eq_true, Bool.and_eq_true]
    exact ⟨⟨rfl, decide_eq_true mintable.number⟩,
      decide_eq_true mintable.size⟩
  · rw [Bool.not_true, Bool.false_or]
    exact work
  · exact decide_eq_true time
  · simpa [mintedBlock, checkCoinBases, mintedCoinBase_isCoinBase,
      bind_eq_ok] using mintable.regular
  · simp [mintedBlock, during, countingNode]

/-- A minted block is connected when its other transactions are. -/
theorem Mintable.connectBlock
    {state : ConnectState}
    (mintable :
      Mintable drawEnv snapshot pprev view lottoHeader prizes others)
    (connected :
      others.foldlM
        (connectTransaction (during (countingNode drawEnv) snapshot pprev)
          (pprev.height + 1) true true)
        (afterCoinBase view (pprev.height + 1) prizes) = .ok state)
    (fees :
      getBlockValue (pprev.height + 1) 0 ≤
        getBlockValue (pprev.height + 1) state.nFees) :
    connectBlock (during (countingNode drawEnv) snapshot pprev) view
        (some pprev) (mintedBlock pprev lottoHeader prizes others) false =
      .ok
        { state.view with
          hashBlock := BitVec.ofNat 256 (pprev.height + 1) } := by
  have hash := lockTimeHash_mintedCoinBase prizes mintable.small
  have sigOps :
      getLegacySigOpCount (mintedCoinBase (pprev.height + 1) prizes) ≤
        MAX_BLOCK_SIGOPS := by
    have total := mintable.sigOps
    rw [List.map_cons, List.sum_cons] at total
    omega
  have transactions :
      connectTransactions (during (countingNode drawEnv) snapshot pprev) view
        (pprev.height + 1) (mintedBlock pprev lottoHeader prizes others) =
          .ok state := by
    have first :=
      connectTransaction_coinBase (during (countingNode drawEnv) snapshot pprev)
        (pprev.height + 1) true true ⟨view, 0, 0⟩
        (mintedCoinBase_isCoinBase (pprev.height + 1) prizes)
        (by rwa [Nat.zero_add])
    rw [Nat.zero_add] at first
    rw [afterCoinBase, ← hash] at connected
    rw [connectTransactions, mintedBlock, List.foldlM_cons]
    exact bind_eq_ok.mpr ⟨_, first, connected⟩
  have fresh :
      (during (countingNode drawEnv) snapshot pprev).blockHash
          (mintedBlock pprev lottoHeader prizes others) ≠ 0 := by
    rw [blockHash_countingNode, blockHash_mintedBlock mintable.small]
    exact ofNat_ne_zero mintable.small
  have unspent :
      ∀ tx ∈ (mintedBlock pprev lottoHeader prizes others).vtx,
        overwrites (during (countingNode drawEnv) snapshot pprev) view tx =
          false := by
    intro tx member
    have absent := mintable.unspent tx member
    simp only [overwrites, during, countingNode, absent]
  have best :
      (during (countingNode drawEnv) snapshot pprev).blockHash pprev.item =
        view.hashBlock := by
    rw [blockHash_countingNode]
    exact mintable.best
  rw [connectBlock_ok mintable.checkBlock mintable.lotto best fresh unspent
    transactions rfl fees, blockHash_countingNode,
    blockHash_mintedBlock mintable.small]

/-- A minted block extends an accepted chain. -/
theorem Mintable.accepted
    {admissible : Snapshot → Prop} {state : ConnectState}
    (mintable :
      Mintable drawEnv snapshot pprev view lottoHeader prizes others)
    (connected :
      others.foldlM
        (connectTransaction (during (countingNode drawEnv) snapshot pprev)
          (pprev.height + 1) true true)
        (afterCoinBase view (pprev.height + 1) prizes) = .ok state)
    (fees :
      getBlockValue (pprev.height + 1) 0 ≤
        getBlockValue (pprev.height + 1) state.nFees)
    (chain : Accepted (countingNode drawEnv) admissible pprev view)
    (admitted : admissible snapshot) :
    Accepted (countingNode drawEnv) admissible
      (.child pprev (mintedBlock pprev lottoHeader prizes others))
      { state.view with
        hashBlock := BitVec.ofNat 256 (pprev.height + 1) } := by
  have linked :
      (mintedBlock pprev lottoHeader prizes others).hashPrevBlock =
        (countingNode drawEnv).blockHash pprev.item :=
    (getHash_nonceHash pprev.item.toCBlockHeader).symm
  have fresh :
      (countingNode drawEnv).blockHash
          (mintedBlock pprev lottoHeader prizes others) ≠
        (countingNode drawEnv).hashGenesisBlock := by
    have hash :
        (countingNode drawEnv).blockHash
            (mintedBlock pprev lottoHeader prizes others) =
          nonceOf (mintedBlock pprev lottoHeader prizes others) :=
      getHash_nonceHash _
    rw [hash, blockHash_mintedBlock mintable.small]
    exact ofNat_ne_zero mintable.small
  exact chain.connect _ snapshot admitted linked fresh
    (mintable.connectBlock connected fees)

end Minting

/-! ## Quiet blocks -/

theorem moneyRange_getBlockValue (nHeight : Nat) :
    moneyRange (getBlockValue nHeight 0) = true := by
  rw [getBlockValue]
  split_ifs <;> decide

theorem checkTransaction_coinBase (nHeight : Nat) :
    checkTransaction (mintedCoinBase nHeight []) = .ok () := by
  have range := moneyRange_getBlockValue nHeight
  have bounds := range
  simp only [moneyRange, decide_eq_true_eq] at bounds
  have size :
      (mintedCoinBase nHeight []).serialize.length ≤ MAX_BLOCK_SIZE :=
    calc
      (mintedCoinBase nHeight []).serialize.length ≤ 95 :=
        length_tx (mintedCoinBase nHeight [])
      _ ≤ MAX_BLOCK_SIZE := by decide
  have outputs :
      checkOutputs (mintedCoinBase nHeight []).vout 0 = .ok () := by
    simp only [mintedCoinBase, checkOutputs, bind_eq_ok, require_eq_ok]
    exact ⟨(), decide_eq_true bounds.1, (), decide_eq_true bounds.2, (),
      by rwa [Int64.zero_add], rfl⟩
  simp only [checkTransaction, bind_eq_ok, require_eq_ok]
  exact ⟨(), rfl, (), rfl, (), decide_eq_true size, (), outputs, (),
    by simp [mintedCoinBase], rfl⟩

theorem getLottoValueFromBlock_minted
    (network : Network) (tipHeight : Nat) (pprev : CBlockIndex)
    (lottoHeader : CLottoHeader) (prizes : List CTxOut) :
    getLottoValueFromBlock network tipHeight
      (mintedBlock pprev lottoHeader prizes []) = .ok 0 := by
  rfl

section Quiet

variable {drawEnv : DrawEnv} {snapshot : Snapshot} {pprev : CBlockIndex}
  {view : CCoinsView} {lottoHeader : CLottoHeader} {prizes : List CTxOut}
  {others : List CTransaction}

theorem checkLottoResult_minted
    (small : pprev.height + 1 < 2 ^ 32)
    (bitcoin :
      checkBitcoinPart snapshot.bitcoin pprev.item.lottoHeader lottoHeader =
        none)
    (pool :
      (during (countingNode drawEnv) snapshot pprev).toView.checkPool pprev
        (mintedBlock pprev lottoHeader prizes others) = .ok none) :
    (during (countingNode drawEnv) snapshot pprev).toView.checkLottoResult
      (some pprev) (mintedBlock pprev lottoHeader prizes others) =
        .ok none := by
  apply checkLottoResult_ok _ rfl bitcoin pool
  have hash :=
    blockHash_countingNode drawEnv snapshot pprev
      (mintedBlock pprev lottoHeader prizes others)
  rw [blockHash_mintedBlock small, Node.blockHash] at hash
  rw [hash]
  exact ofNat_ne_zero small

/-- The pool part of a block without a key behind a block without one. -/
theorem checkPool_quiet
    {nCurBetValue : Int64}
    (bets :
      getLottoValueFromBlock .main pprev.height
        (mintedBlock pprev lottoHeader [] others) = .ok nCurBetValue)
    (pool :
      lottoHeader.llPool = pprev.item.lottoHeader.llPool + nCurBetValue)
    (key : lottoHeader.uLottoKey = 0)
    (prevKey : pprev.item.lottoHeader.uLottoKey = 0) :
    (during (countingNode drawEnv) snapshot pprev).toView.checkPool pprev
      (mintedBlock pprev lottoHeader [] others) = .ok none := by
  rw [View.checkPool, bind_eq_ok]
  refine ⟨nCurBetValue, bets, ?_⟩
  rw [if_neg (by simp [mintedBlock, key]), checkNoDraw,
    if_neg (by simp [mintedBlock, pool]), bind_eq_ok]
  refine ⟨mintedCoinBase (pprev.height + 1) [], rfl, ?_⟩
  rw [if_neg (by simp [mintedCoinBase]), if_neg (by simp [prevKey])]
  rfl

/-- A quiet block can follow every block without a key. -/
theorem mintable_quiet
    (small : pprev.height + 1 < 2 ^ 32)
    (late : 1404273600 ≤ snapshot.nAdjustedTime)
    (few : lottoHeader.mBitcoinHash.size ≤ 100)
    (best : nonceOf pprev.item = view.hashBlock)
    (unused : view.coins (BitVec.ofNat 256 (pprev.height + 1)) = none)
    (bitcoin :
      checkBitcoinPart snapshot.bitcoin pprev.item.lottoHeader lottoHeader =
        none)
    (pool : lottoHeader.llPool = pprev.item.lottoHeader.llPool)
    (key : lottoHeader.uLottoKey = 0)
    (prevKey : pprev.item.lottoHeader.uLottoKey = 0) :
    Mintable drawEnv snapshot pprev view lottoHeader [] [] where
  small := small
  late := late
  size := by
    have bound : (mintedBlock pprev lottoHeader [] []).serialize.length ≤
        150 + 36 * lottoHeader.mBitcoinHash.size + 95 :=
      length_block (mintedBlock pprev lottoHeader [] [])
    rw [MAX_BLOCK_SIZE]
    omega
  number := by decide
  regular := by simp
  transactions := by simpa using checkTransaction_coinBase (pprev.height + 1)
  distinct := by simp
  sigOps := by
    show 0 + 0 ≤ MAX_BLOCK_SIGOPS
    decide
  best := best
  unspent := by
    intro tx member
    rw [List.mem_singleton.mp member, lockTimeHash_mintedCoinBase [] small]
    exact unused
  lotto := by
    apply checkLottoResult_minted small bitcoin
    apply checkPool_quiet (getLottoValueFromBlock_minted _ _ _ _ _) _ key prevKey
    rw [pool, Int64.add_zero]

end Quiet

/-! ## Quiet chains -/

/-- A header that names the first Bitcoin block and no key. -/
def quietHeader (llPool : Int64) : CLottoHeader :=
  { genesisLottoHeader with llPool := llPool }

def quietBlock (pprev : CBlockIndex) : CBlock :=
  mintedBlock pprev (quietHeader pprev.item.lottoHeader.llPool) [] []

/-- An index with some quiet blocks on top. -/
def quietChain : Nat → CBlockIndex → CBlockIndex
  | 0, tip => tip
  | count + 1, tip =>
      .child (quietChain count tip) (quietBlock (quietChain count tip))

@[simp]
theorem height_quietChain (count : Nat) (tip : CBlockIndex) :
    (quietChain count tip).height = tip.height + count := by
  induction count with
  | zero => rfl
  | succ count inductionHypothesis =>
      rw [quietChain, Lineage.height_child, inductionHypothesis,
        Nat.add_assoc]

theorem at?_quietChain
    (count : Nat) {tip : CBlockIndex} {nHeight : Nat}
    (below : nHeight ≤ tip.height) :
    (quietChain count tip).at? nHeight = tip.at? nHeight := by
  induction count with
  | zero => rfl
  | succ count inductionHypothesis =>
      rw [quietChain, Lineage.at?_child_of_le, inductionHypothesis]
      rw [height_quietChain]
      omega

theorem at?_quietChain_add
    {count steps : Nat} (tip : CBlockIndex) (within : steps ≤ count) :
    (quietChain count tip).at? (tip.height + steps) =
      some (quietChain steps tip) := by
  induction count with
  | zero =>
      rw [Nat.le_zero.mp within]
      exact Lineage.at?_self tip
  | succ count inductionHypothesis =>
      by_cases isTop : steps = count + 1
      · rw [isTop, ← height_quietChain, Lineage.at?_self]
      · rw [quietChain, Lineage.at?_child_of_le]
        · exact inductionHypothesis (by omega)
        · rw [height_quietChain]
          omega

@[simp]
theorem llPool_quietChain (count : Nat) (tip : CBlockIndex) :
    (quietChain count tip).item.lottoHeader.llPool =
      tip.item.lottoHeader.llPool := by
  induction count with
  | zero => rfl
  | succ count inductionHypothesis => exact inductionHypothesis

/--
The first Bitcoin block may be named again after every block whose last
Bitcoin height is not below its predecessor.
-/
theorem checkBitcoinPart_start
    (bitcoin : BitcoinChain) (preLottoHeader lottoHeader : CLottoHeader)
    (names : lottoHeader.mBitcoinHash = genesisLottoHeader.mBitcoinHash)
    (near :
      ¬ 1 < Int32.ofInt BTC_START_HIGHT -
        CLottoHeader.getLastBitcoinHeight preLottoHeader) :
    checkBitcoinPart bitcoin preLottoHeader lottoHeader = none := by
  have entries :
      lottoHeader.mBitcoinHash.entries =
        [(Int32.ofInt BTC_START_HIGHT, hashBitcoinStartBlock)] := by
    rw [names]
    rfl
  have first :
      CLottoHeader.getFirstBitcoinHeight lottoHeader =
        Int32.ofInt BTC_START_HIGHT := by
    rw [CLottoHeader.getFirstBitcoinHeight, OrderedMap.first?, entries]
    rfl
  have start : (Int32.ofInt BTC_START_HIGHT).toInt = BTC_START_HIGHT := by
    decide
  have index :
      bitcoin.getBitcoinBlockIndex BTC_START_HIGHT =
        some (.root hashBitcoinStartBlock) := by
    rw [BitcoinChain.getBitcoinBlockIndex, if_neg (lt_irrefl _), sub_self]
    exact bitcoin.starts
  have link : checkBitcoinLink bitcoin preLottoHeader lottoHeader = none := by
    rw [checkBitcoinLink]
    simp only [first, if_neg near, start, ne_eq, not_true_eq_false, if_false]
  have hashes :
      checkBitcoinHashes bitcoin lottoHeader.mBitcoinHash.entries 0 =
        none := by
    have differs : (0 : Uint256) ≠ hashBitcoinStartBlock := by decide
    simp only [entries, checkBitcoinHashes, start, index, Lineage.item,
      ne_eq, not_true_eq_false, false_and, or_false, if_false, differs]
  rw [checkBitcoinPart, OrderedMap.isEmpty, entries, link]
  simpa [entries] using hashes

/-- An accepted chain that a quiet block can follow. -/
structure Quiet
    (drawEnv : DrawEnv) (admissible : Snapshot → Prop) (tip : CBlockIndex)
    (view : CCoinsView) : Prop where
  chain : Accepted (countingNode drawEnv) admissible tip view
  best : nonceOf tip.item = view.hashBlock
  key : tip.item.lottoHeader.uLottoKey = 0
  last :
    CLottoHeader.getLastBitcoinHeight tip.item.lottoHeader =
      Int32.ofInt BTC_START_HIGHT
  unused :
    ∀ nHeight, tip.height < nHeight → nHeight < 2 ^ 31 →
      view.coins (BitVec.ofNat 256 nHeight) = none

theorem ofNat_injective
    {first second : Nat} (firstSmall : first < 2 ^ 32)
    (secondSmall : second < 2 ^ 32)
    (equal : BitVec.ofNat 256 first = BitVec.ofNat 256 second) :
    first = second := by
  have values := congrArg BitVec.toNat equal
  rwa [BitVec.toNat_ofNat, BitVec.toNat_ofNat,
    Nat.mod_eq_of_lt (lt_trans firstSmall (by decide)),
    Nat.mod_eq_of_lt (lt_trans secondSmall (by decide))] at values

theorem quiet_genesis (drawEnv : DrawEnv) (admissible : Snapshot → Prop) :
    Quiet drawEnv admissible (.root genesisBlock) ⟨fun _ => none, 0⟩ where
  chain := by
    have hash :
        (countingNode drawEnv).blockHash genesisBlock =
          (countingNode drawEnv).hashGenesisBlock :=
      getHash_nonceHash genesisBlock.toCBlockHeader
    exact Accepted.genesis genesisBlock rfl hash
  best := rfl
  key := rfl
  last := rfl
  unused := fun _ _ _ => rfl

/-- The set of unspent outputs behind a quiet block. -/
def quietView (tip : CBlockIndex) (view : CCoinsView) : CCoinsView where
  coins :=
    Function.update view.coins (BitVec.ofNat 256 (tip.height + 1))
      (some (mintedCoins (tip.height + 1) []))
  hashBlock := BitVec.ofNat 256 (tip.height + 1)

theorem quietView_coins
    (tip : CBlockIndex) (view : CCoinsView) (txid : Uint256) :
    (quietView tip view).coins txid =
      Function.update view.coins (BitVec.ofNat 256 (tip.height + 1))
        (some (mintedCoins (tip.height + 1) [])) txid :=
  rfl

/-- A quiet block keeps the chain quiet. -/
theorem Quiet.step
    {drawEnv : DrawEnv} {admissible : Snapshot → Prop}
    {tip : CBlockIndex} {view : CCoinsView}
    (quiet : Quiet drawEnv admissible tip view)
    (snapshot : Snapshot)
    (admitted : admissible snapshot)
    (late : 1404273600 ≤ snapshot.nAdjustedTime)
    (small : tip.height + 1 < 2 ^ 31) :
    Quiet drawEnv admissible (.child tip (quietBlock tip))
      (quietView tip view) := by
  have small32 : tip.height + 1 < 2 ^ 32 := lt_trans small (by decide)
  have near :
      ¬ 1 < Int32.ofInt BTC_START_HIGHT -
        CLottoHeader.getLastBitcoinHeight tip.item.lottoHeader := by
    rw [quiet.last]
    decide
  have mintable :
      Mintable drawEnv snapshot tip view
        (quietHeader tip.item.lottoHeader.llPool) [] [] := by
    apply mintable_quiet small32 late
    · exact show 1 ≤ 100 by decide
    · exact quiet.best
    · exact quiet.unused (tip.height + 1) (Nat.lt_succ_self _) small
    · exact checkBitcoinPart_start _ _ _ rfl near
    · rfl
    · rfl
    · exact quiet.key
  constructor
  · exact mintable.accepted rfl (Int64.le_refl _) quiet.chain admitted
  · exact blockHash_mintedBlock small32
  · rfl
  · rfl
  · intro nHeight above below
    rw [Lineage.height_child] at above
    rw [quietView_coins, Function.update_of_ne]
    · exact quiet.unused nHeight (by omega) below
    · intro equal
      have same := ofNat_injective (by omega) small32 equal
      omega

/-- What a run of quiet blocks leaves in the set of unspent outputs. -/
structure QuietRun
    (tip : CBlockIndex) (view : CCoinsView) (count : Nat)
    (next : CCoinsView) : Prop where
  minted :
    ∀ nHeight, tip.height < nHeight → nHeight ≤ tip.height + count →
      next.coins (BitVec.ofNat 256 nHeight) = some (mintedCoins nHeight [])
  kept :
    ∀ txid,
      (∀ nHeight, tip.height < nHeight → nHeight ≤ tip.height + count →
        txid ≠ BitVec.ofNat 256 nHeight) →
      next.coins txid = view.coins txid

/-- Every number of quiet blocks can follow a quiet chain. -/
theorem Quiet.run
    {drawEnv : DrawEnv} {admissible : Snapshot → Prop}
    {tip : CBlockIndex} {view : CCoinsView}
    (quiet : Quiet drawEnv admissible tip view)
    (count : Nat) (snapshot : Snapshot)
    (admitted : admissible snapshot)
    (late : 1404273600 ≤ snapshot.nAdjustedTime)
    (small : tip.height + count < 2 ^ 31) :
    ∃ next, Quiet drawEnv admissible (quietChain count tip) next ∧
      QuietRun tip view count next := by
  induction count with
  | zero =>
      refine ⟨view, quiet, ?_, fun _ _ => rfl⟩
      intro nHeight above below
      omega
  | succ count inductionHypothesis =>
      rcases inductionHypothesis (by omega) with ⟨between, earlier, run⟩
      have room : (quietChain count tip).height + 1 < 2 ^ 31 := by
        rw [height_quietChain]
        omega
      refine ⟨quietView (quietChain count tip) between,
        earlier.step snapshot admitted late room, ?_, ?_⟩
      · intro nHeight above below
        rw [quietView_coins, height_quietChain]
        by_cases isTop : nHeight = tip.height + count + 1
        · rw [isTop, Function.update_self]
        · rw [Function.update_of_ne]
          · exact run.minted nHeight above (by omega)
          · intro equal
            exact isTop (ofNat_injective (by omega) (by omega) equal)
      · intro txid others
        rw [quietView_coins, height_quietChain, Function.update_of_ne]
        · apply run.kept
          intro nHeight above below
          exact others nHeight above (by omega)
        · exact others (tip.height + count + 1) (by omega) (by omega)

end DSValue.Consensus.QuietChain

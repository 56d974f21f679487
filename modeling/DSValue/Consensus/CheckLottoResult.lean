import DSValue.Consensus.TxOut
import DSValue.Lib.Lineage
import DSValue.Lotto.Draw

/-!
# Checking the lottery part of a block

`CheckLottoResult` compares the Bitcoin hashes of a block with the active
Bitcoin chain and with the previous block, recomputes the draw and compares
the pool and the coinbase with it.

A block index is a lineage of blocks: its item is what `ReadBlockFromDisk`
returns for it, and reading a block that has an index is taken to succeed.
The two lottery parameters that can be set on the command line have their
default values.
-/

namespace DSValue.Consensus.CheckLottoResult

open DSValue.Lib
open DSValue.Core.Serialize
open DSValue.Core.Header
open DSValue.Core.Transaction
open DSValue.Script.Scan
open DSValue.Lotto.Bet
open DSValue.Lotto.Draw
open DSValue.Consensus.TxOut

/-- `BTC_START_HIGHT`. -/
def BTC_START_HIGHT : Int := 308447

/-- `hashBitcoinStartBlock`. -/
def hashBitcoinStartBlock : Uint256 :=
  0x00000000000000003ff2a53152ee98910d7383c0177459ad258c4b2d2c4d4610

def nIntervalLottery : Nat := 60

def nLottoStep : Nat := 6

/-- `CBlockIndex`. -/
abbrev CBlockIndex := Lineage CBlock

/-! ## The active Bitcoin chain -/

/--
The active Bitcoin chain, as the block hashes from `BTC_START_HIGHT` on.
Block indices are found by their hash, so that hashes differ, and the zero
hash stands for no hash.
-/
structure BitcoinChain where
  tip : Lineage Uint256
  starts : tip.at? 0 = some (.root hashBitcoinStartBlock)
  distinct :
    ∀ first second left right,
      tip.at? first = some left → tip.at? second = some right →
        left.item = right.item → first = second
  nonzero :
    ∀ height node, tip.at? height = some node → node.item ≠ 0

/-- `CChainManager::GetBitcoinBlockIndex`. -/
def BitcoinChain.getBitcoinBlockIndex
    (bitcoin : BitcoinChain) (nHeight : Int) : Option (Lineage Uint256) :=
  if nHeight < BTC_START_HIGHT then none
  else bitcoin.tip.at? (nHeight - BTC_START_HIGHT).toNat

/-- The height of the last block of the active Bitcoin chain. -/
def BitcoinChain.tipHeight (bitcoin : BitcoinChain) : Int :=
  BTC_START_HIGHT + bitcoin.tip.height

/-! ## The Bitcoin hashes of a header -/

def CLottoHeader.getFirstBitcoinHeight (header : CLottoHeader) : Int32 :=
  match header.mBitcoinHash.first? with
  | none => 0
  | some entry => entry.1

def CLottoHeader.getLastBitcoinHeight (header : CLottoHeader) : Int32 :=
  match header.mBitcoinHash.last? with
  | none => 0
  | some entry => entry.1

def CLottoHeader.getLastBitcoinHash (header : CLottoHeader) : Uint256 :=
  match header.mBitcoinHash.last? with
  | none => 0
  | some entry => entry.2

/-- The reject codes that block validation uses. -/
inductive RejectCode where
  | none
  | invalid
  | duplicate
  | nonstandard
  | insufficientFee
  | checkpoint
  | invalidLotto
  | dirtyBlock
deriving DecidableEq

/-- What `CValidationState::DoS` records. -/
structure Reject where
  nDoS : Nat
  chRejectCode : RejectCode
  strRejectReason : String
  corruptionPossible : Bool
deriving DecidableEq

/-- `NULL != pIndex && hash != *(pIndex->phashBlock)`. -/
def knownAndDiffers (hash : Uint256) (pIndex : Option (Lineage Uint256)) :
    Bool :=
  match pIndex with
  | none => false
  | some index => hash ≠ index.item

/-- The check that the first Bitcoin height follows the previous block. -/
def checkBitcoinLink
    (bitcoin : BitcoinChain) (preLottoHeader lottoHeader : CLottoHeader) :
    Option Reject :=
  let first := CLottoHeader.getFirstBitcoinHeight lottoHeader
  let preHash := CLottoHeader.getLastBitcoinHash preLottoHeader
  if 1 < first - CLottoHeader.getLastBitcoinHeight preLottoHeader then
    some ⟨100, .dirtyBlock, "bad-btc-hash-sequence", true⟩
  else if first.toInt ≠ BTC_START_HIGHT then
    match bitcoin.getBitcoinBlockIndex first.toInt with
    | none => some ⟨0, .invalidLotto, "bad-btc-hash-sequence", true⟩
    | some pBitcoinIndex =>
        if preHash ≠ pBitcoinIndex.item ∧
            knownAndDiffers preHash
              (bitcoin.getBitcoinBlockIndex (first - 1).toInt) then
          some ⟨100, .invalidLotto, "bad-btc-hash-sequence", true⟩
        else none
  else none

/-- The loop over the Bitcoin hashes of the block. -/
def checkBitcoinHashes (bitcoin : BitcoinChain) :
    List (Int32 × Uint256) → Uint256 → Option Reject
  | [], _ => none
  | entry :: rest, iterPreBTCHash =>
      match bitcoin.getBitcoinBlockIndex entry.1.toInt with
      | none => some ⟨0, .invalidLotto, "bad-btc-hash-sequence", true⟩
      | some pBitcoinIndex =>
          if (iterPreBTCHash ≠ 0 ∧
              knownAndDiffers iterPreBTCHash pBitcoinIndex.pprev?) ∨
              pBitcoinIndex.item ≠ entry.2 then
            some ⟨0, .dirtyBlock, "bad-btchash", true⟩
          else if iterPreBTCHash = entry.2 then
            some ⟨100, .dirtyBlock, "bad-btchash", true⟩
          else checkBitcoinHashes bitcoin rest entry.2

/-- The Bitcoin part of `CheckLottoResult`. -/
def checkBitcoinPart
    (bitcoin : BitcoinChain) (preLottoHeader lottoHeader : CLottoHeader) :
    Option Reject :=
  if lottoHeader.mBitcoinHash.isEmpty then
    some ⟨100, .dirtyBlock, "bad-btc-hash-map", true⟩
  else
    match checkBitcoinLink bitcoin preLottoHeader lottoHeader with
    | some reject => some reject
    | none => checkBitcoinHashes bitcoin lottoHeader.mBitcoinHash.entries 0

/-! ## The draw -/

/-- What validating a block reads besides the block and its parent. -/
structure View where
  network : Network
  hash9 : List UInt8 → Uint256
  hashGenesisBlock : Uint256
  checkpoints : Nat → Option Uint256
  bitcoin : BitcoinChain
  readLotteryKey : Int32 → Option Uint256
  drawEnv : DrawEnv
  chainActive : CBlockIndex

/-- `Checkpoints::CheckBlock`. -/
def View.checkpointPasses (view : View) (nHeight : Nat) (hash : Uint256) :
    Bool :=
  match view.checkpoints nHeight with
  | none => true
  | some checkpoint => hash = checkpoint

/-- `GetLotteryKey`: the number of the key and the key, if it is known. -/
def View.getLotteryKey (view : View) (nHeight : Nat) :
    Int32 × Option Uint256 :=
  if nHeight ≤ 2 * nIntervalLottery then (0, some 1)
  else
    let nID := Int32.ofInt (nHeight / nIntervalLottery - 1)
    (nID, view.readLotteryKey nID)

/-- The height of the block that `GetLotteryHash` takes the seed from. -/
def seedHeight (nHeight : Nat) : Nat :=
  nIntervalLottery * (nHeight / nIntervalLottery - 1) +
    min nLottoStep (nIntervalLottery - 1)

/-- `GetLotteryHash`. -/
def View.getLotteryHash (view : View) (pIndex : CBlockIndex) :
    Except Fault Uint256 :=
  if pIndex.height < nIntervalLottery then pure 0
  else
    match view.chainActive.at? (seedHeight pIndex.height) with
    | none => throw .assertion
    | some pLottorIndex =>
        match pLottorIndex.item.lottoHeader.mBitcoinHash.last? with
        | none => throw .outOfRange
        | some entry => pure entry.2

/-- The block whose bets `DrawLottery` draws on top of an index. -/
def lotteryBlock? (pindexPrev : CBlockIndex) (uLottoKey : Uint256) :
    Option CBlockIndex :=
  if pindexPrev.height < 2 * nIntervalLottery ∨ uLottoKey = 0 then none
  else pindexPrev.walk (2 * nIntervalLottery - 1)

theorem lotteryBlock?_eq_some
    {pindexPrev index : CBlockIndex} {uLottoKey : Uint256} :
    lotteryBlock? pindexPrev uLottoKey = some index ↔
      120 ≤ pindexPrev.height ∧ uLottoKey ≠ 0 ∧
        pindexPrev.at? (pindexPrev.height - 119) = some index := by
  rw [lotteryBlock?]
  constructor
  · intro found
    split_ifs at found with skipped
    rw [not_or, not_lt] at skipped
    rw [nIntervalLottery, Lineage.walk_eq_at?] at found
    · exact ⟨skipped.1, skipped.2, found⟩
    · have high := skipped.1
      rw [nIntervalLottery] at high
      omega
  · rintro ⟨high, nonzero, found⟩
    rw [if_neg (by
        rw [not_or, not_lt]
        exact ⟨high, nonzero⟩),
      nIntervalLottery, Lineage.walk_eq_at? (by omega)]
    exact found

/-- `DrawLottery`: the outputs and the sum of the rewards. -/
def View.drawLottery
    (view : View) (drawPool : Int64) (pindexPrev : CBlockIndex)
    (nID : Int32) (uLottoKey : Uint256) :
    Except Fault (List CTxOut × Int64) :=
  match lotteryBlock? pindexPrev uLottoKey with
  | none => pure ([], 0)
  | some pDrawLotteryIndex => do
      let vBet ←
        collectBets view.network view.chainActive.height pDrawLotteryIndex.item
      let lotterryHash ← view.getLotteryHash pindexPrev
      if vBet.isEmpty then pure ([], 0)
      else
        let alotto ←
          CLotto.ofKey view.drawEnv lotterryHash nID uLottoKey drawPool vBet
        CLotto.getReWardOutput alotto

/-! ## The whole check -/

/-- `block.vtx[0]`. -/
def coinBaseOf (block : CBlock) : Except Fault CTransaction :=
  match block.vtx with
  | [] => throw .outOfRange
  | coinBaseTx :: _ => pure coinBaseTx

/-- The outputs of the coinbase behind the first one. -/
def lottoTxOutOf (coinBaseTx : CTransaction) : Except Fault (List CTxOut) :=
  match coinBaseTx.vout with
  | [] => throw .outOfRange
  | _ :: lottoTxOut => pure lottoTxOut

/-- The branch of `CheckLottoResult` that recomputes the draw. -/
def View.checkDraw
    (view : View) (pPreBlockIndex : CBlockIndex) (block : CBlock)
    (nCurBetValue : Int64) : Except Fault (Option Reject) := do
  let coinBaseTx ← coinBaseOf block
  let lottoTxOut ← lottoTxOutOf coinBaseTx
  match view.getLotteryKey pPreBlockIndex.height with
  | (_, none) =>
      pure (some ⟨0, .invalidLotto, "check lotto result error", true⟩)
  | (nID, some lottoKey) =>
      if lottoKey ≠ block.lottoHeader.uLottoKey ∨
          nID ≠ block.lottoHeader.nLottoID then
        pure (some ⟨100, .invalidLotto, "bad-block", true⟩)
      else do
        let llPool := pPreBlockIndex.item.lottoHeader.llPool
        let drawn ← view.drawLottery llPool pPreBlockIndex nID lottoKey
        if block.lottoHeader.llPool + drawn.2 ≠ llPool + nCurBetValue then
          pure (some ⟨100, .dirtyBlock, "bad-block", true⟩)
        else if drawn.1 ≠ lottoTxOut then
          pure (some ⟨100, .dirtyBlock, "bad-block", true⟩)
        else pure none

/-- The branch of `CheckLottoResult` without a draw. -/
def checkNoDraw
    (pPreBlockIndex : CBlockIndex) (block : CBlock)
    (nCurBetValue : Int64) : Except Fault (Option Reject) :=
  let preLottoHeader := pPreBlockIndex.item.lottoHeader
  if block.lottoHeader.llPool ≠ preLottoHeader.llPool + nCurBetValue then
    pure (some ⟨100, .dirtyBlock, "bad-block", true⟩)
  else do
    let coinBaseTx ← coinBaseOf block
    if coinBaseTx.vout.length ≠ 1 then
      pure (some ⟨100, .dirtyBlock, "bad-block", true⟩)
    else if pPreBlockIndex.height % nIntervalLottery ≠ 0 ∧
        preLottoHeader.uLottoKey ≠ 0 ∧ preLottoHeader.uLottoKey ≠ 1 ∧
        block.lottoHeader.uLottoKey = 0 then
      pure (some ⟨100, .dirtyBlock, "bad-block", true⟩)
    else pure none

/-- The part of `CheckLottoResult` behind the Bitcoin hashes. -/
def View.checkPool
    (view : View) (pPreBlockIndex : CBlockIndex) (block : CBlock) :
    Except Fault (Option Reject) := do
  let nCurBetValue ←
    getLottoValueFromBlock view.network view.chainActive.height block
  if 2 * nIntervalLottery ≤ pPreBlockIndex.height ∧
      block.lottoHeader.uLottoKey ≠ 0 then
    view.checkDraw pPreBlockIndex block nCurBetValue
  else checkNoDraw pPreBlockIndex block nCurBetValue

/-- `CheckLottoResult`, with the index found for `hashPrevBlock`. -/
def View.checkLottoResult
    (view : View) (pPreBlockIndex? : Option CBlockIndex) (block : CBlock) :
    Except Fault (Option Reject) :=
  if CBlockHeader.getHash view.hash9 block.toCBlockHeader =
      view.hashGenesisBlock then pure none
  else
    match pPreBlockIndex? with
    | none => pure (some ⟨10, .none, "bad-prevblk", false⟩)
    | some pPreBlockIndex =>
        if !view.checkpointPasses (pPreBlockIndex.height + 1)
            (CBlockHeader.getHash view.hash9 block.toCBlockHeader) then
          pure (some ⟨100, .checkpoint, "checkpoint mismatch", false⟩)
        else
          match checkBitcoinPart view.bitcoin
              pPreBlockIndex.item.lottoHeader block.lottoHeader with
          | some reject => pure (some reject)
          | none => view.checkPool pPreBlockIndex block

/-! ## What an accepted block satisfies -/

/-- The pool part of a block that draws. -/
structure DrawAccepted
    (view : View) (pPreBlockIndex : CBlockIndex) (block : CBlock)
    (nCurBetValue : Int64) : Prop where
  key :
    view.getLotteryKey pPreBlockIndex.height =
      (block.lottoHeader.nLottoID, some block.lottoHeader.uLottoKey)
  paid :
    ∃ coinBaseTx rest subsidy lottoTxOut llRewards,
      block.vtx = coinBaseTx :: rest ∧
      coinBaseTx.vout = subsidy :: lottoTxOut ∧
      view.drawLottery pPreBlockIndex.item.lottoHeader.llPool pPreBlockIndex
          block.lottoHeader.nLottoID block.lottoHeader.uLottoKey =
        .ok (lottoTxOut, llRewards) ∧
      block.lottoHeader.llPool + llRewards =
        pPreBlockIndex.item.lottoHeader.llPool + nCurBetValue

/-- The pool part of a block that does not draw. -/
structure NoDrawAccepted
    (pPreBlockIndex : CBlockIndex) (block : CBlock) (nCurBetValue : Int64) :
    Prop where
  pool :
    block.lottoHeader.llPool =
      pPreBlockIndex.item.lottoHeader.llPool + nCurBetValue
  unpaid :
    ∃ coinBaseTx rest subsidy,
      block.vtx = coinBaseTx :: rest ∧ coinBaseTx.vout = [subsidy]
  key :
    block.lottoHeader.uLottoKey = 0 →
      pPreBlockIndex.height % nIntervalLottery = 0 ∨
      pPreBlockIndex.item.lottoHeader.uLottoKey = 0 ∨
      pPreBlockIndex.item.lottoHeader.uLottoKey = 1

/-- What `CheckLottoResult` establishes for a block on a known parent. -/
structure LottoAccepted
    (view : View) (pPreBlockIndex : CBlockIndex) (block : CBlock) :
    Prop where
  bitcoin :
    checkBitcoinPart view.bitcoin pPreBlockIndex.item.lottoHeader
      block.lottoHeader = none
  pool :
    ∃ nCurBetValue,
      getLottoValueFromBlock view.network view.chainActive.height block =
        .ok nCurBetValue ∧
      (if 2 * nIntervalLottery ≤ pPreBlockIndex.height ∧
          block.lottoHeader.uLottoKey ≠ 0 then
        DrawAccepted view pPreBlockIndex block nCurBetValue
      else NoDrawAccepted pPreBlockIndex block nCurBetValue)

theorem drawAccepted_of_checkDraw
    {view : View} {pPreBlockIndex : CBlockIndex} {block : CBlock}
    {nCurBetValue : Int64}
    (accepted :
      view.checkDraw pPreBlockIndex block nCurBetValue = .ok none) :
    DrawAccepted view pPreBlockIndex block nCurBetValue := by
  simp only [View.checkDraw, bind_eq_ok] at accepted
  rcases accepted with ⟨coinBaseTx, first, lottoTxOut, outputs, accepted⟩
  rcases block_vtx : block.vtx with _ | ⟨head, rest⟩
  · simp [coinBaseOf, block_vtx, throw, throwThe, MonadExceptOf.throw] at first
  simp only [coinBaseOf, block_vtx] at first
  cases first
  rcases vout : coinBaseTx.vout with _ | ⟨subsidy, others⟩
  · simp [lottoTxOutOf, vout, throw, throwThe, MonadExceptOf.throw] at outputs
  simp only [lottoTxOutOf, vout] at outputs
  cases outputs
  rcases known : view.getLotteryKey pPreBlockIndex.height with
    ⟨nID, _ | lottoKey⟩
  · simp [known, pure, Except.pure] at accepted
  simp only [known] at accepted
  split_ifs at accepted with differs
  · cases accepted
  rw [not_or, not_not, not_not] at differs
  rcases differs with ⟨rfl, rfl⟩
  rw [bind_eq_ok] at accepted
  rcases accepted with ⟨drawn, draw, accepted⟩
  split_ifs at accepted with pool prizes
  · cases accepted
  · cases accepted
  rw [not_not] at pool prizes
  refine ⟨known, coinBaseTx, rest, subsidy, lottoTxOut, drawn.2, block_vtx,
    vout, ?_, pool⟩
  rw [draw, ← prizes]

theorem noDrawAccepted_of_checkNoDraw
    {pPreBlockIndex : CBlockIndex} {block : CBlock} {nCurBetValue : Int64}
    (accepted : checkNoDraw pPreBlockIndex block nCurBetValue = .ok none) :
    NoDrawAccepted pPreBlockIndex block nCurBetValue := by
  simp only [checkNoDraw] at accepted
  split at accepted
  · cases accepted
  rename_i pool
  rw [bind_eq_ok] at accepted
  rcases accepted with ⟨coinBaseTx, first, accepted⟩
  split_ifs at accepted with outputs zeroKey
  · cases accepted
  · cases accepted
  rw [not_not] at pool outputs
  rcases block_vtx : block.vtx with _ | ⟨head, rest⟩
  · simp [coinBaseOf, block_vtx, throw, throwThe, MonadExceptOf.throw] at first
  simp only [coinBaseOf, block_vtx] at first
  cases first
  rcases List.length_eq_one_iff.mp outputs with ⟨subsidy, vout⟩
  refine ⟨pool, ⟨coinBaseTx, rest, subsidy, block_vtx, vout⟩, ?_⟩
  intro isZero
  by_contra refused
  simp only [not_or] at refused
  exact zeroKey ⟨refused.1, refused.2.1, refused.2.2, isZero⟩

/-- A block on a known parent that is not the genesis block. -/
theorem lottoAccepted_of_checkLottoResult
    {view : View} {pPreBlockIndex : CBlockIndex} {block : CBlock}
    (notGenesis :
      CBlockHeader.getHash view.hash9 block.toCBlockHeader ≠
        view.hashGenesisBlock)
    (accepted :
      view.checkLottoResult (some pPreBlockIndex) block = .ok none) :
    LottoAccepted view pPreBlockIndex block := by
  rw [View.checkLottoResult, if_neg notGenesis] at accepted
  split_ifs at accepted
  · cases accepted
  split at accepted
  · cases accepted
  rename_i bitcoin
  refine ⟨bitcoin, ?_⟩
  simp only [View.checkPool, bind_eq_ok] at accepted
  rcases accepted with ⟨nCurBetValue, bets, accepted⟩
  refine ⟨nCurBetValue, bets, ?_⟩
  split_ifs at accepted ⊢
  · exact drawAccepted_of_checkDraw accepted
  · exact noDrawAccepted_of_checkNoDraw accepted

/-- The parts of `CheckLottoResult` suffice. -/
theorem checkLottoResult_ok
    {view : View} {pPreBlockIndex : CBlockIndex} {block : CBlock}
    (notGenesis :
      CBlockHeader.getHash view.hash9 block.toCBlockHeader ≠
        view.hashGenesisBlock)
    (checkpoint :
      view.checkpointPasses (pPreBlockIndex.height + 1)
        (CBlockHeader.getHash view.hash9 block.toCBlockHeader) = true)
    (bitcoin :
      checkBitcoinPart view.bitcoin pPreBlockIndex.item.lottoHeader
        block.lottoHeader = none)
    (pool : view.checkPool pPreBlockIndex block = .ok none) :
    view.checkLottoResult (some pPreBlockIndex) block = .ok none := by
  rw [View.checkLottoResult, if_neg notGenesis]
  simp only [checkpoint, bitcoin, Bool.not_true, Bool.false_eq_true, if_false]
  exact pool

end DSValue.Consensus.CheckLottoResult

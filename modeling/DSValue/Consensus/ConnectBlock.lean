import DSValue.Consensus.CheckBlock

/-!
# Connecting a block

`ConnectBlock` repeats `CheckBlock` and `CheckLottoResult`, spends the inputs
of the transactions in the set of unspent outputs and bounds the first output
of the coinbase.  An accepted chain is one whose blocks were connected one by
one, each while its parent was the active tip.
-/

namespace DSValue.Consensus.ConnectBlock

open DSValue.Lib
open DSValue.Core.Serialize
open DSValue.Core.Header
open DSValue.Core.Transaction
open DSValue.Script.Scan
open DSValue.Consensus.CheckLottoResult
open DSValue.Consensus.CheckBlock

/-- `COINBASE_MATURITY`. -/
def COINBASE_MATURITY : Int := 100

/-- `GetBlockValue`. -/
def getBlockValue (nHeight : Nat) (nFees : Int64) : Int64 :=
  let nSubsidy :=
    if nHeight < 101 then 100000 * COIN
    else if nHeight < 105121 then 250 * COIN
    else if nHeight < 210240 then 130 * COIN
    else 20
  nSubsidy + nFees

/-! ## The set of unspent outputs -/

/-- `CCoinsViewCache`, with what lies behind the cache. -/
structure CCoinsView where
  coins : Uint256 → Option CCoins
  hashBlock : Uint256

namespace CCoinsView

def setCoins (view : CCoinsView) (txid : Uint256) (coins : CCoins) :
    CCoinsView :=
  { view with coins := Function.update view.coins txid (some coins) }

@[simp]
theorem setCoins_self (view : CCoinsView) (txid : Uint256) (coins : CCoins) :
    (view.setCoins txid coins).coins txid = some coins :=
  Function.update_self _ _ _

theorem setCoins_of_ne
    (view : CCoinsView) (coins : CCoins) {txid other : Uint256}
    (differs : other ≠ txid) :
    (view.setCoins txid coins).coins other = view.coins other :=
  Function.update_of_ne differs _ _

/-- The output of an input, if it is available. -/
def outputFor? (view : CCoinsView) (txin : CTxIn) : Option CTxOut :=
  match view.coins txin.prevout.hash with
  | none => none
  | some coins =>
      if coins.isAvailable txin.prevout.n.toNat then
        coins.vout[txin.prevout.n.toNat]?
      else none

/-- `CCoinsViewCache::GetOutputFor`. -/
def getOutputFor (view : CCoinsView) (txin : CTxIn) : Except Fault CTxOut :=
  match view.outputFor? txin with
  | none => throw .assertion
  | some txout => pure txout

/-- `CCoinsViewCache::HaveInputs`. -/
def haveInputs (view : CCoinsView) (tx : CTransaction) : Bool :=
  tx.isCoinBase || tx.vin.all fun txin => (view.outputFor? txin).isSome

/-- `CCoinsViewCache::GetValueIn`. -/
def getValueIn (view : CCoinsView) (tx : CTransaction) : Except Fault Int64 :=
  if tx.isCoinBase then pure 0
  else
    tx.vin.foldlM
      (fun nResult txin => do
        let txout ← view.getOutputFor txin
        pure (nResult + txout.nValue)) 0

/-- The loop of `UpdateCoins` over the inputs. -/
def spendInputs (view : CCoinsView) : List CTxIn → Except Fault CCoinsView
  | [] => pure view
  | txin :: rest =>
      match view.coins txin.prevout.hash with
      | none => throw .assertion
      | some coins =>
          match coins.spend txin.prevout.n.toNat with
          | none => throw .assertion
          | some spent =>
              (view.setCoins txin.prevout.hash spent).spendInputs rest

end CCoinsView

/-- `CTransaction::GetValueOut`. -/
def getValueOut (tx : CTransaction) : Except Fault Int64 :=
  tx.vout.foldlM
    (fun nValueOut txout =>
      if moneyRange txout.nValue && moneyRange (nValueOut + txout.nValue) then
        pure (nValueOut + txout.nValue)
      else throw .exception) 0

/-- `GetP2SHSigOpCount`. -/
def getP2SHSigOpCount (view : CCoinsView) (tx : CTransaction) :
    Except Fault Nat :=
  if tx.isCoinBase then pure 0
  else
    tx.vin.foldlM
      (fun nSigOps txin => do
        let prevout ← view.getOutputFor txin
        pure
          (if isPayToScriptHash prevout.scriptPubKey then
            nSigOps + getScriptHashSigOpCount txin.scriptSig
          else nSigOps)) 0

/-! ## Inputs -/

/-- Whether a coinbase may be spent already. -/
def matured (coins : CCoins) (nSpendHeight : Nat) : Bool :=
  !coins.fCoinBase ||
    decide (COINBASE_MATURITY ≤ (nSpendHeight : Int) - coins.nHeight.toInt)

/-- One round of the first loop of `CheckInputs`. -/
def checkInput
    (view : CCoinsView) (nSpendHeight : Nat) (nValueIn : Int64)
    (txin : CTxIn) : Except Failure Int64 :=
  match view.coins txin.prevout.hash with
  | none => throw (.fault .assertion)
  | some coins => do
      require (matured coins nSpendHeight)
        ⟨0, .invalid, "bad-txns-premature-spend-of-coinbase", false⟩
      match coins.vout[txin.prevout.n.toNat]? with
      | none => throw (.fault .outOfRange)
      | some txout => do
          require
            (moneyRange txout.nValue && moneyRange (nValueIn + txout.nValue))
            ⟨100, .invalid, "bad-txns-inputvalues-outofrange", false⟩
          pure (nValueIn + txout.nValue)

/-- The script checks of `CheckInputs`. -/
def scriptsPass
    (node : Node) (view : CCoinsView) (fStrictPayToScriptHash : Bool)
    (tx : CTransaction) : Bool :=
  tx.vin.zipIdx.all fun entry =>
    match view.outputFor? entry.1 with
    | none => false
    | some txout =>
        node.verifyScript entry.1.scriptSig txout.scriptPubKey tx entry.2
          fStrictPayToScriptHash

/-- `CheckInputs` of a transaction that is not a coinbase. -/
def checkInputs
    (node : Node) (view : CCoinsView) (nSpendHeight : Nat)
    (fScriptChecks fStrictPayToScriptHash : Bool) (tx : CTransaction) :
    Except Failure Unit := do
  require (view.haveInputs tx) ⟨0, .none, "", false⟩
  let nValueIn ← tx.vin.foldlM (checkInput view nSpendHeight) 0
  let nValueOut ← orFault (getValueOut tx)
  require (nValueOut ≤ nValueIn)
    ⟨100, .invalid, "bad-txns-in-belowout", false⟩
  require (0 ≤ nValueIn - nValueOut)
    ⟨100, .invalid, "bad-txns-fee-negative", false⟩
  require (moneyRange (nValueIn - nValueOut))
    ⟨100, .invalid, "bad-txns-fee-outofrange", false⟩
  require
    (!fScriptChecks || scriptsPass node view fStrictPayToScriptHash tx)
    ⟨100, .nonstandard, "non-canonical", false⟩

/-- The part of `UpdateCoins` that a coinbase skips. -/
def markSpent (view : CCoinsView) (tx : CTransaction) :
    Except Fault CCoinsView :=
  if tx.isCoinBase then pure view else view.spendInputs tx.vin

/-- `UpdateCoins`. -/
def updateCoins
    (node : Node) (view : CCoinsView) (nHeight : Nat) (tx : CTransaction) :
    Except Fault CCoinsView := do
  let spent ← markSpent view tx
  pure (spent.setCoins (node.txHash tx)
    (CCoins.ofTransaction tx (Int32.ofInt nHeight)))

/-! ## The block -/

/-- What the loop of `ConnectBlock` over the transactions carries. -/
structure ConnectState where
  view : CCoinsView
  nFees : Int64
  nSigOps : Nat

/-- The part of the loop that a coinbase skips. -/
def connectInputs
    (node : Node) (nHeight : Nat) (fScriptChecks fStrictPayToScriptHash : Bool)
    (state : ConnectState) (tx : CTransaction) :
    Except Failure ConnectState :=
  if tx.isCoinBase then pure state
  else do
    require (state.view.haveInputs tx)
      ⟨100, .invalid, "bad-txns-inputs-missingorspent", false⟩
    let nP2SHSigOps ←
      orFault (if fStrictPayToScriptHash then getP2SHSigOpCount state.view tx
        else pure 0)
    require (state.nSigOps + nP2SHSigOps ≤ MAX_BLOCK_SIGOPS)
      ⟨100, .invalid, "bad-blk-sigops", false⟩
    let nValueIn ← orFault (state.view.getValueIn tx)
    let nValueOut ← orFault (getValueOut tx)
    checkInputs node state.view nHeight fScriptChecks fStrictPayToScriptHash tx
    pure
      { state with
        nFees := state.nFees + (nValueIn - nValueOut)
        nSigOps := state.nSigOps + nP2SHSigOps }

/-- One round of the loop of `ConnectBlock` over the transactions. -/
def connectTransaction
    (node : Node) (nHeight : Nat) (fScriptChecks fStrictPayToScriptHash : Bool)
    (state : ConnectState) (tx : CTransaction) :
    Except Failure ConnectState := do
  require (state.nSigOps + getLegacySigOpCount tx ≤ MAX_BLOCK_SIGOPS)
    ⟨100, .invalid, "bad-blk-sigops", false⟩
  let checked ←
    connectInputs node nHeight fScriptChecks fStrictPayToScriptHash
      { state with nSigOps := state.nSigOps + getLegacySigOpCount tx } tx
  let view ← orFault (updateCoins node checked.view nHeight tx)
  pure { checked with view := view }

/-- The two blocks of the Bitcoin main chain that are exempt. -/
def enforceBIP30 (nHeight : Nat) (hash : Uint256) : Bool :=
  !((nHeight = 91842 ∧ hash =
      0x00000000000a4d0a398161ffc163c503763b1f4360639393e0e4c8e300e0caec) ∨
    (nHeight = 91880 ∧ hash =
      0x00000000000743f190a18c5577a3c2d2a1f610ae9601ac046a38084ccb7cd721))

/-- Whether unspent outputs of a transaction would be overwritten. -/
def overwrites (node : Node) (view : CCoinsView) (tx : CTransaction) : Bool :=
  match view.coins (node.txHash tx) with
  | none => false
  | some coins => !coins.isPruned

/-- The loop of `ConnectBlock` over the transactions. -/
def connectTransactions
    (node : Node) (view : CCoinsView) (nHeight : Nat) (block : CBlock) :
    Except Failure ConnectState :=
  block.vtx.foldlM
    (connectTransaction node nHeight
      (decide (node.nTotalBlocksEstimate ≤ nHeight))
      (decide (1333238400 ≤ block.nTime.toNat)))
    ⟨view, 0, 0⟩

/-- `block.vtx[0].vout[0]`. -/
def subsidyOf (block : CBlock) : Except Fault CTxOut :=
  match block.vtx with
  | ⟨_, _, subsidy :: _, _⟩ :: _ => pure subsidy
  | _ => throw .outOfRange

/-- `pindex->pprev->GetBlockHash()`. -/
def hashOfPrev (node : Node) : Option CBlockIndex → Uint256
  | none => 0
  | some pprev => node.blockHash pprev.item

/-- `pindex->nHeight`. -/
def nextHeight : Option CBlockIndex → Nat
  | none => 0
  | some pprev => pprev.height + 1

/--
`ConnectBlock` of a block whose parent in the index is the one found for
`hashPrevBlock`.
-/
def connectBlock
    (node : Node) (view : CCoinsView) (pprev? : Option CBlockIndex)
    (block : CBlock) (fJustCheck : Bool) : Except Failure CCoinsView := do
  node.checkBlock block (!fJustCheck) (!fJustCheck)
  orReject (node.toView.checkLottoResult pprev? block)
  require (hashOfPrev node pprev? = view.hashBlock)
    ⟨100, .invalid, "bad-pre-hash", true⟩
  if node.blockHash block = node.hashGenesisBlock then
    pure { view with hashBlock := node.blockHash block }
  else do
    require
      (!enforceBIP30 (nextHeight pprev?) (node.blockHash block) ||
        block.vtx.all fun tx => !overwrites node view tx)
      ⟨100, .invalid, "bad-txns-BIP30", false⟩
    let state ← connectTransactions node view (nextHeight pprev?) block
    let subsidy ← orFault (subsidyOf block)
    require (subsidy.nValue ≤ getBlockValue (nextHeight pprev?) state.nFees)
      ⟨100, .invalid, "bad-cb-amount", false⟩
    pure
      (if fJustCheck then state.view
      else { state.view with hashBlock := node.blockHash block })

/-! ## What a connected block satisfies -/

/-- What `ConnectBlock` establishes for a block on a known parent. -/
structure Connected
    (node : Node) (view : CCoinsView) (pprev : CBlockIndex) (block : CBlock)
    (state : ConnectState) (coinBaseTx : CTransaction)
    (others : List CTransaction) (subsidy : CTxOut) (prizes : List CTxOut) :
    Prop where
  checked : Checked block coinBaseTx others
  lotto : LottoAccepted node.toView pprev block
  outputs : coinBaseTx.vout = subsidy :: prizes
  transactions :
    connectTransactions node view (pprev.height + 1) block = .ok state
  amount : subsidy.nValue ≤ getBlockValue (pprev.height + 1) state.nFees

theorem connected_of_connectBlock
    {node : Node} {view next : CCoinsView} {pprev : CBlockIndex}
    {block : CBlock} {fJustCheck : Bool}
    (fresh : node.blockHash block ≠ node.hashGenesisBlock)
    (accepted :
      connectBlock node view (some pprev) block fJustCheck = .ok next) :
    ∃ state coinBaseTx others subsidy prizes,
      Connected node view pprev block state coinBaseTx others subsidy
        prizes := by
  simp only [connectBlock, bind_eq_ok, orReject_eq_ok, if_neg fresh,
    orFault_eq_ok, require_eq_ok] at accepted
  rcases accepted with ⟨_, checks, _, lotto, _, _, _, _, state, transactions,
    subsidy, first, _, amount, _⟩
  rcases checked_of_checkBlock checks with ⟨coinBaseTx, others, checked⟩
  rcases coinBaseTx with ⟨nVersion, vin, _ | ⟨output, prizes⟩, nLockTime⟩
  · simp [subsidyOf, checked.vtx, throw, throwThe, MonadExceptOf.throw]
      at first
  simp only [subsidyOf, checked.vtx] at first
  cases first
  refine ⟨state, _, others, _, prizes, checked,
    lottoAccepted_of_checkLottoResult fresh lotto, rfl, transactions,
    of_decide_eq_true amount⟩

/-- A block that passes every check is connected. -/
theorem connectBlock_ok
    {node : Node} {view : CCoinsView} {pprev : CBlockIndex} {block : CBlock}
    {state : ConnectState} {subsidy : CTxOut}
    (checks : node.checkBlock block true true = .ok ())
    (lotto : node.toView.checkLottoResult (some pprev) block = .ok none)
    (best : node.blockHash pprev.item = view.hashBlock)
    (fresh : node.blockHash block ≠ node.hashGenesisBlock)
    (unspent : ∀ tx ∈ block.vtx, overwrites node view tx = false)
    (transactions :
      connectTransactions node view (pprev.height + 1) block = .ok state)
    (first : subsidyOf block = .ok subsidy)
    (amount : subsidy.nValue ≤ getBlockValue (pprev.height + 1) state.nFees) :
    connectBlock node view (some pprev) block false =
      .ok { state.view with hashBlock := node.blockHash block } := by
  simp only [connectBlock, bind_eq_ok, orReject_eq_ok, if_neg fresh,
    orFault_eq_ok, require_eq_ok]
  refine ⟨(), checks, (), lotto, (), decide_eq_true best, (), ?_, state,
    transactions, subsidy, first, (), decide_eq_true amount, rfl⟩
  rw [Bool.or_eq_true]
  exact Or.inr (by simpa using unspent)

/-- A coinbase only adds its outputs. -/
theorem connectTransaction_coinBase
    (node : Node) (nHeight : Nat) (fScriptChecks fStrictPayToScriptHash : Bool)
    (state : ConnectState) {tx : CTransaction}
    (coinBase : tx.isCoinBase = true)
    (sigOps : state.nSigOps + getLegacySigOpCount tx ≤ MAX_BLOCK_SIGOPS) :
    connectTransaction node nHeight fScriptChecks fStrictPayToScriptHash state
        tx =
      .ok
        { view := state.view.setCoins (node.txHash tx)
            (CCoins.ofTransaction tx (Int32.ofInt nHeight))
          nFees := state.nFees
          nSigOps := state.nSigOps + getLegacySigOpCount tx } := by
  have updated :
      updateCoins node state.view nHeight tx =
        .ok (state.view.setCoins (node.txHash tx)
          (CCoins.ofTransaction tx (Int32.ofInt nHeight))) := by
    rw [updateCoins, markSpent, if_pos coinBase]
    rfl
  simp only [connectTransaction, bind_eq_ok, require_eq_ok, orFault_eq_ok,
    connectInputs, if_pos coinBase]
  exact ⟨(), decide_eq_true sigOps, _, rfl, _, updated, rfl⟩

/-! ## Accepted chains -/

/-- What a node knows at the time a block is connected. -/
structure Snapshot where
  bitcoin : BitcoinChain
  readLotteryKey : Int32 → Option Uint256
  nAdjustedTime : Int

/-- The node at that time, with an active tip. -/
def during
    (node : Node) (snapshot : Snapshot) (tip : CBlockIndex) : Node :=
  { node with
    bitcoin := snapshot.bitcoin
    readLotteryKey := snapshot.readLotteryKey
    nAdjustedTime := snapshot.nAdjustedTime
    chainActive := tip }

/-- The lottery header of the genesis block. -/
def genesisLottoHeader : CLottoHeader where
  nVersion := 1
  mBitcoinHash :=
    OrderedMap.empty.insert (Int32.ofInt BTC_START_HIGHT) hashBitcoinStartBlock
  llPool := 2000000 * COIN
  nLottoID := 1
  uLottoKey := 0

/--
The chains whose blocks were all accepted by `ConnectBlock`, with the set of
unspent outputs they leave.  What the node knows may change from block to
block within the admissible snapshots.
-/
inductive Accepted (node : Node) (admissible : Snapshot → Prop) :
    CBlockIndex → CCoinsView → Prop
  | genesis (block : CBlock)
      (header : block.lottoHeader = genesisLottoHeader)
      (hash : node.blockHash block = node.hashGenesisBlock) :
      Accepted node admissible (.root block)
        ⟨fun _ => none, node.hashGenesisBlock⟩
  | connect {pprev : CBlockIndex} {view next : CCoinsView}
      (chain : Accepted node admissible pprev view)
      (block : CBlock) (snapshot : Snapshot) (admitted : admissible snapshot)
      (linked : block.hashPrevBlock = node.blockHash pprev.item)
      (fresh : node.blockHash block ≠ node.hashGenesisBlock)
      (connected :
        connectBlock (during node snapshot pprev) view (some pprev) block
          false = .ok next) :
      Accepted node admissible (.child pprev block) next

/-- The last block of an accepted chain was connected. -/
theorem Accepted.connected
    {node : Node} {admissible : Snapshot → Prop} {pprev : CBlockIndex}
    {block : CBlock} {view : CCoinsView}
    (chain : Accepted node admissible (.child pprev block) view) :
    ∃ before snapshot state coinBaseTx others subsidy prizes,
      Accepted node admissible pprev before ∧
      admissible snapshot ∧
      Connected (during node snapshot pprev) before pprev block state
        coinBaseTx others subsidy prizes := by
  cases chain with
  | connect earlier block snapshot admitted linked fresh connected =>
      have freshThen :
          (during node snapshot pprev).blockHash block ≠
            (during node snapshot pprev).hashGenesisBlock := fresh
      rcases connected_of_connectBlock freshThen connected with
        ⟨state, coinBaseTx, others, subsidy, prizes, facts⟩
      exact ⟨_, snapshot, state, coinBaseTx, others, subsidy, prizes, earlier,
        admitted, facts⟩

/-- Every initial part of an accepted chain is accepted. -/
theorem Accepted.of_at?
    {node : Node} {admissible : Snapshot → Prop} {tip index : CBlockIndex}
    {view : CCoinsView} {nHeight : Nat}
    (chain : Accepted node admissible tip view)
    (found : tip.at? nHeight = some index) :
    ∃ before, Accepted node admissible index before := by
  induction chain with
  | genesis block header hash =>
      rw [Lineage.at?] at found
      split_ifs at found
      cases found
      exact ⟨_, .genesis block header hash⟩
  | @connect pprev before next chain block snapshot admitted linked fresh
      connected inductionHypothesis =>
      rw [Lineage.at?] at found
      split_ifs at found with isTop
      · cases found
        exact ⟨_, .connect chain block snapshot admitted linked fresh
          connected⟩
      · exact inductionHypothesis found

end DSValue.Consensus.ConnectBlock

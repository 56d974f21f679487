import DSValue.Mempool.Pool

/-!
# Accepting loose transactions

`AcceptToMemoryPool` checks a transaction on its own, against the
transactions of the pool and against the unspent outputs of the tip and the
pool.  Among its relay rules are the two about bets: every output has to pass
`IsTransactionValid`, and the fee has to reach `GetLottoFee`, which is the
total of the bets times the `double` 0.05, truncated.

The standard forms of scripts, the rate limiter for free transactions and the
script interpreter with strict encodings are parameters.
-/

namespace DSValue.Mempool.Accept

open DSValue.Lib
open DSValue.Core.Serialize
open DSValue.Core.Transaction
open DSValue.Lotto.Bet
open DSValue.Script.Scan
open DSValue.Consensus.TxOut
open DSValue.Consensus.CheckLottoResult
open DSValue.Consensus.CheckBlock
open DSValue.Consensus.ConnectBlock
open DSValue.Mempool.Pool

/-! ## Bets -/

/-- The loop of `CTransaction::IsTransactionValid`. -/
def validLoop (network : Network) (tipHeight : Nat) :
    List CTxOut → TransactionState → Except Fault Bool
  | [], _ => pure true
  | v :: rest, iTxType => do
      let scanned ← getLottoTxOutType network tipHeight v iTxType
      if !scanned.1 then pure false
      else if scanned.2 = .invalidLotto then pure false
      else validLoop network tipHeight rest scanned.2

/-- `CTransaction::IsTransactionValid`. -/
def isTransactionValid
    (network : Network) (tipHeight : Nat) (tx : CTransaction) :
    Except Fault Bool :=
  validLoop network tipHeight tx.vout .normal

/--
`g_ldLottoFeeRate`: the `double` next to 0.05 is this number over `2 ^ 56`.
-/
def lottoFeeRate : Int := 3602879701896397

/-- `llLottoValue * g_ldLottoFeeRate` as an `int64_t`. -/
def rateOf (llLottoValue : Int64) : Int64 :=
  Double.toInt64
    ((Double.mul (Double.ofInt64 llLottoValue) lottoFeeRate).tdiv (2 ^ 56))

/-- `GetLottoFee`. -/
def getLottoFee (network : Network) (tipHeight : Nat) (tx : CTransaction) :
    Except Fault Int64 := do
  let llLottoValue ← lottoValueLoop network tipHeight tx.vout .normal 0
  pure (rateOf llLottoValue)

/-! ## Relay rules -/

/--
What relaying reads besides what validation does.  `isStandardTx` is the
reason why a transaction is not standard, and `freeLimitReached` says whether
the count of free transactions has reached `-limitfreerelay`.
-/
structure Relay where
  isStandardTx : CTransaction → Option String
  areInputsStandard : CTransaction → CCoinsView → Bool
  verifyStrict : CScript → CScript → CTransaction → Nat → Bool
  nMinRelayTxFee : Int64
  freeLimitReached : Bool

/-- `DEFAULT_BLOCK_PRIORITY_SIZE`. -/
def DEFAULT_BLOCK_PRIORITY_SIZE : Nat := 50000

/-- `GetMinFee` with `GMF_RELAY` and free transactions allowed. -/
def getMinFee
    (network : Network) (tipHeight : Nat) (nMinRelayTxFee : Int64)
    (tx : CTransaction) (nBytes : Nat) : Except Fault Int64 := do
  let nMinFee :=
    if nBytes < DEFAULT_BLOCK_PRIORITY_SIZE - 1000 then 0
    else Int64.ofNat (1 + nBytes / 1000) * nMinRelayTxFee
  let llLottoFee ← getLottoFee network tipHeight tx
  pure ((if moneyRange nMinFee then nMinFee else MAX_MONEY) + llLottoFee)

/-- `MEMPOOL_HEIGHT`. -/
def MEMPOOL_HEIGHT : Int32 := 0x7fffffff

/-- `CCoinsViewMemPool` over the coins of the tip. -/
def poolView (pool : CTxMemPool) (view : CCoinsView) : CCoinsView where
  coins := fun txid =>
    match view.coins txid with
    | some coins => some coins
    | none =>
        (pool.mapTx txid).map fun tx => CCoins.ofTransaction tx MEMPOOL_HEIGHT
  hashBlock := view.hashBlock

/-- A failure that records nothing. -/
def silent : Reject :=
  ⟨0, .none, "", false⟩

/-- Reject with a reason, if there is one. -/
def rejectNonstandard : Option String → Except Failure Unit
  | none => pure ()
  | some reason => throw (.reject ⟨0, .nonstandard, reason, false⟩)

/-- The checks against the coins of the tip and the pool. -/
def checkSpends
    (node : Node) (pool : CTxMemPool) (view : CCoinsView)
    (tx : CTransaction) : Except Failure Unit := do
  require (!pool.contains (node.txHash tx)) silent
  require (tx.vin.all fun txin => (pool.mapNextTx txin.prevout).isNone) silent
  require (view.coins (node.txHash tx)).isNone silent
  require (tx.vin.all fun txin => (view.coins txin.prevout.hash).isSome) silent
  require (view.haveInputs tx)
    ⟨0, .duplicate, "bad-txns-inputs-spent", false⟩

/-- The checks of the fee and of the bets. -/
def checkFees
    (node : Node) (relay : Relay) (view : CCoinsView) (tx : CTransaction)
    (fLimitFree fRejectInsaneFee : Bool) : Except Failure Unit := do
  let nValueIn ← orFault (view.getValueIn tx)
  let nValueOut ← orFault (getValueOut tx)
  let nFees := nValueIn - nValueOut
  let valid ←
    orFault (isTransactionValid node.network node.chainActive.height tx)
  require valid silent
  let llLottoFee ←
    orFault (getLottoFee node.network node.chainActive.height tx)
  require (llLottoFee ≤ nFees) silent
  let txMinFee ←
    orFault (getMinFee node.network node.chainActive.height
      relay.nMinRelayTxFee tx tx.serialize.length)
  require (!(fLimitFree && decide (nFees < txMinFee)))
    ⟨0, .insufficientFee, "insufficient fee", false⟩
  require
    (!(fLimitFree && decide (nFees < relay.nMinRelayTxFee) &&
      relay.freeLimitReached))
    ⟨0, .insufficientFee, "insufficient priority", false⟩
  require
    (!(fRejectInsaneFee && decide (relay.nMinRelayTxFee * 10000 < nFees)))
    silent

/--
`AcceptToMemoryPool`, with the index of the best block of the coins.  The
scripts are checked with strict encodings.
-/
def acceptToMemoryPool
    (node : Node) (relay : Relay) (pindexPrev : CBlockIndex)
    (coins : CCoinsView) (pool : CTxMemPool) (tx : CTransaction)
    (fLimitFree fRejectInsaneFee : Bool) : Except Failure CTxMemPool := do
  checkTransaction tx
  require (!tx.isCoinBase) ⟨100, .invalid, "coinbase", false⟩
  rejectNonstandard
    (if node.network = .main then relay.isStandardTx tx else none)
  checkSpends node pool (poolView pool coins) tx
  require
    (decide (node.network ≠ .main) ||
      relay.areInputsStandard tx (poolView pool coins)) silent
  checkFees node relay (poolView pool coins) tx fLimitFree fRejectInsaneFee
  checkInputs
    { node with
      verifyScript := fun scriptSig scriptPubKey tx nIn _ =>
        relay.verifyStrict scriptSig scriptPubKey tx nIn }
    (poolView pool coins) (pindexPrev.height + 1) true true tx
  pure (pool.addUnchecked (node.txHash tx) tx)

/-! ## What an accepted transaction satisfies -/

/-- The betting rules on a transaction, with the coins of its inputs. -/
structure KeepsRules (node : Node) (view : CCoinsView) (tx : CTransaction) :
    Prop where
  valid :
    isTransactionValid node.network node.chainActive.height tx = .ok true
  fee :
    ∃ nValueIn nValueOut llLottoFee,
      view.getValueIn tx = .ok nValueIn ∧
      getValueOut tx = .ok nValueOut ∧
      getLottoFee node.network node.chainActive.height tx = .ok llLottoFee ∧
      llLottoFee ≤ nValueIn - nValueOut

theorem keepsRules_of_checkFees
    {node : Node} {relay : Relay} {view : CCoinsView} {tx : CTransaction}
    {fLimitFree fRejectInsaneFee : Bool}
    (checked :
      checkFees node relay view tx fLimitFree fRejectInsaneFee = .ok ()) :
    KeepsRules node view tx := by
  simp only [checkFees, bind_eq_ok, require_eq_ok, orFault_eq_ok] at checked
  rcases checked with ⟨nValueIn, valueIn, nValueOut, valueOut, valid, isValid,
    _, holds, llLottoFee, lottoFee, _, enough, _⟩
  rw [holds] at isValid
  exact ⟨isValid, nValueIn, nValueOut, llLottoFee, valueIn, valueOut,
    lottoFee, of_decide_eq_true enough⟩

/-- What `AcceptToMemoryPool` establishes. -/
structure Accepts
    (node : Node) (coins : CCoinsView) (pool : CTxMemPool)
    (tx : CTransaction) (next : CTxMemPool) : Prop where
  checked : checkTransaction tx = .ok ()
  regular : tx.isCoinBase = false
  spends : checkSpends node pool (poolView pool coins) tx = .ok ()
  rules : KeepsRules node (poolView pool coins) tx
  added : next = pool.addUnchecked (node.txHash tx) tx

theorem accepts_of_acceptToMemoryPool
    {node : Node} {relay : Relay} {pindexPrev : CBlockIndex}
    {coins : CCoinsView} {pool next : CTxMemPool} {tx : CTransaction}
    {fLimitFree fRejectInsaneFee : Bool}
    (accepted :
      acceptToMemoryPool node relay pindexPrev coins pool tx fLimitFree
        fRejectInsaneFee = .ok next) :
    Accepts node coins pool tx next := by
  simp only [acceptToMemoryPool, bind_eq_ok, require_eq_ok] at accepted
  rcases accepted with ⟨_, checked, _, regular, _, _, _, spends, _, _, _, fees,
    _, _, added⟩
  cases added
  exact ⟨checked, by simpa using regular, spends,
    keepsRules_of_checkFees fees, rfl⟩

end DSValue.Mempool.Accept

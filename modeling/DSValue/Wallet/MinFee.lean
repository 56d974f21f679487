import DSValue.Mempool.Accept
import DSValue.Wallet.CoinSelection

/-!
# The least fee

`GetMinFee` asks for a fee by size, which is zero for small transactions with
a high priority, and adds the fee on the bets.  When a transaction is sent an
output below a cent costs the base fee.  `IsDust` compares an output with the
price of spending it.
-/

namespace DSValue.Wallet.MinFee

open DSValue.Lib
open DSValue.Core.Transaction
open DSValue.Lotto.Bet
open DSValue.Script.Scan
open DSValue.Consensus.TxOut
open DSValue.Mempool.Accept hiding getMinFee
open DSValue.Wallet.CoinSelection

/-- `CTxOut::IsDust`. -/
def isDust (txout : CTxOut) (nMinRelayTxFee : Int64) : Except Fault Bool := do
  let price : Int32 := 3 * (Int32.ofNat txout.serialize.length + 148)
  let nValuePerKilobyte ← divide (txout.nValue * 1000) price.toInt64
  pure (nValuePerKilobyte < nMinRelayTxFee)

/-- `GetMinFee_mode`. -/
inductive GetMinFee_mode where
  | GMF_RELAY
  | GMF_SEND
deriving DecidableEq

/-- `CTransaction::nMinTxFee` and `CTransaction::nMinRelayTxFee`. -/
structure FeeRates where
  nMinTxFee : Int64
  nMinRelayTxFee : Int64

/-- `(1 + (int64_t) nBytes / 1000) * nRate`. -/
def feeBySize (nBytes : Nat) (nRate : Int64) : Int64 :=
  Int64.ofNat (1 + nBytes / 1000) * nRate

/-- `if (!MoneyRange(nMinFee)) nMinFee = MAX_MONEY`. -/
def clampFee (nMinFee : Int64) : Int64 :=
  if moneyRange nMinFee then nMinFee else MAX_MONEY

/-- `GetMinFee` without the fee on the bets. -/
def sizeFee (rates : FeeRates) (tx : CTransaction) (nBytes : Nat)
    (fAllowFree : Bool) (mode : GetMinFee_mode) : Int64 :=
  let nBaseFee :=
    if mode = .GMF_RELAY then rates.nMinRelayTxFee else rates.nMinTxFee
  let nFreeBytes :=
    if mode = .GMF_SEND then 1000 else DEFAULT_BLOCK_PRIORITY_SIZE - 1000
  let nMinFee :=
    if fAllowFree ∧ nBytes < nFreeBytes then 0 else feeBySize nBytes nBaseFee
  let nMinFee :=
    if (nMinFee < nBaseFee ∧ mode = .GMF_SEND) ∧
        tx.vout.any fun txout => txout.nValue < CENT then nBaseFee
    else nMinFee
  clampFee nMinFee

/-- `GetMinFee`. -/
def getMinFee (network : Network) (tipHeight : Nat) (rates : FeeRates)
    (tx : CTransaction) (nBytes : Nat) (fAllowFree : Bool)
    (mode : GetMinFee_mode) : Except Fault Int64 := do
  let llLottoFee ← getLottoFee network tipHeight tx
  pure (sizeFee rates tx nBytes fAllowFree mode + llLottoFee)

/-- Relaying a transaction that may be free. -/
theorem getMinFee_relay
    (network : Network) (tipHeight : Nat) (rates : FeeRates)
    (tx : CTransaction) (nBytes : Nat) :
    getMinFee network tipHeight rates tx nBytes true .GMF_RELAY =
      Mempool.Accept.getMinFee network tipHeight rates.nMinRelayTxFee tx
        nBytes := by
  rw [getMinFee, Mempool.Accept.getMinFee]
  congr 1
  funext llLottoFee
  simp [sizeFee, feeBySize, clampFee]

/-! ## Bounds -/

theorem clampFee_bounds (nMinFee : Int64) :
    0 ≤ (clampFee nMinFee).toInt ∧ (clampFee nMinFee).toInt ≤ MAX_MONEY.toInt := by
  rw [clampFee]
  split_ifs with inRange
  · rw [moneyRange, decide_eq_true_eq] at inRange
    exact ⟨Int64.le_iff_toInt_le.mp inRange.1, Int64.le_iff_toInt_le.mp inRange.2⟩
  · decide

theorem sizeFee_bounds
    (rates : FeeRates) (tx : CTransaction) (nBytes : Nat) (fAllowFree : Bool)
    (mode : GetMinFee_mode) :
    0 ≤ (sizeFee rates tx nBytes fAllowFree mode).toInt ∧
      (sizeFee rates tx nBytes fAllowFree mode).toInt ≤ MAX_MONEY.toInt :=
  clampFee_bounds _

theorem toInt_toInt64_of_natAbs
    {value : Int} (few : value.natAbs ≤ 2 ^ 54) :
    (Double.toInt64 value).toInt = value := by
  rw [Double.toInt64, if_pos ⟨by omega, by omega⟩]
  exact Int64.toInt_ofInt_of_le (by omega) (by omega)

theorem rateOf_bound {magnitude : Nat} (few : magnitude ≤ 2 ^ 54) :
    Double.roundNat (Double.roundNat magnitude * 3602879701896397) /
      72057594037927936 ≤ 2 ^ 54 := by
  have first := Double.roundNat_le magnitude
  have second := Double.roundNat_le
    (Double.roundNat magnitude * 3602879701896397)
  omega

/-- The fee on bets is small when their total is. -/
theorem natAbs_rateOf_le
    {llLottoValue : Int64} (few : llLottoValue.toInt.natAbs ≤ 2 ^ 54) :
    (rateOf llLottoValue).toInt.natAbs ≤ 2 ^ 54 := by
  have rate : lottoFeeRate.natAbs = 3602879701896397 := by decide
  have unit : ((2 : Int) ^ 56).natAbs = 72057594037927936 := rfl
  have small :
      ((Double.round (Double.round llLottoValue.toInt * lottoFeeRate)).tdiv
        (2 ^ 56)).natAbs ≤ 2 ^ 54 := by
    rw [Int.natAbs_tdiv, Double.natAbs_round, Int.natAbs_mul,
      Double.natAbs_round, rate, unit]
    exact rateOf_bound few
  rw [rateOf, Double.mul, Double.ofInt64, toInt_toInt64_of_natAbs small]
  exact small

/-- The total of the absolute values of some outputs. -/
def absoluteValue (vout : List CTxOut) : Nat :=
  (vout.map fun txout => txout.nValue.toInt.natAbs).sum

theorem lottoValueLoop_bound
    {network : Network} {tipHeight : Nat} {vout : List CTxOut}
    {iTxType : TransactionState} {nCurBetValue result : Int64}
    (ran :
      lottoValueLoop network tipHeight vout iTxType nCurBetValue = .ok result)
    (few : nCurBetValue.toInt.natAbs + absoluteValue vout ≤ 2 ^ 54) :
    result.toInt.natAbs ≤ 2 ^ 54 := by
  induction vout generalizing iTxType nCurBetValue with
  | nil =>
      cases ran
      omega
  | cons vOut rest inductionHypothesis =>
      rw [lottoValueLoop] at ran
      rcases bind_eq_ok.mp ran with ⟨scanned, -, later⟩
      rw [absoluteValue, List.map_cons, List.sum_cons, ← absoluteValue] at few
      have added : (nCurBetValue + vOut.nValue).toInt =
          nCurBetValue.toInt + vOut.nValue.toInt :=
        toInt_add_of_bounds (by omega) (by omega)
      refine inductionHypothesis later ?_
      split_ifs
      · omega
      · omega

/-- `GetMinFee` is the fee on the bets and what the size costs. -/
theorem getMinFee_eq_ok
    {network : Network} {tipHeight : Nat} {rates : FeeRates} {tx : CTransaction}
    {nBytes : Nat} {fAllowFree : Bool} {mode : GetMinFee_mode} {nMinFee : Int64}
    (ran :
      getMinFee network tipHeight rates tx nBytes fAllowFree mode = .ok nMinFee)
    (few : absoluteValue tx.vout ≤ 2 ^ 54) :
    ∃ llLottoFee, getLottoFee network tipHeight tx = .ok llLottoFee ∧
      llLottoFee.toInt ≤ nMinFee.toInt ∧
      nMinFee.toInt ≤ MAX_MONEY.toInt + 2 ^ 54 := by
  rw [getMinFee] at ran
  rcases bind_eq_ok.mp ran with ⟨llLottoFee, isFee, same⟩
  cases same
  have value := isFee
  rw [getLottoFee] at value
  rcases bind_eq_ok.mp value with ⟨llLottoValue, scanned, isRate⟩
  cases isRate
  have bound := natAbs_rateOf_le (lottoValueLoop_bound scanned (by simpa using few))
  have size := sizeFee_bounds rates tx nBytes fAllowFree mode
  have limit : MAX_MONEY.toInt = 5200000000000000 := by decide
  have added :
      (sizeFee rates tx nBytes fAllowFree mode + rateOf llLottoValue).toInt =
        (sizeFee rates tx nBytes fAllowFree mode).toInt +
          (rateOf llLottoValue).toInt :=
    toInt_add_of_bounds (by omega) (by omega)
  exact ⟨_, isFee, by omega, by omega⟩

end DSValue.Wallet.MinFee

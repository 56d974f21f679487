import DSValue.Consensus.QuietChain

/-!
# Chains with bets

A block that spends coinbases of quiet blocks and places bets with them keeps
the chain quiet, so that quiet blocks can follow it.
-/

namespace DSValue.Consensus.BetChain

open DSValue.Lib
open DSValue.Core.Serialize
open DSValue.Core.Header
open DSValue.Core.Transaction
open DSValue.Script.Scan
open DSValue.Lotto.Draw
open DSValue.Consensus.TxOut
open DSValue.Consensus.CheckLottoResult
open DSValue.Consensus.CheckBlock
open DSValue.Consensus.ConnectBlock
open DSValue.Consensus.QuietChain

/-! ## Spending coinbases -/

def inputOf (nHeight : Nat) : CTxIn :=
  ⟨⟨BitVec.ofNat 256 nHeight, 0⟩, [], 0xffffffff⟩

/-- The transaction that spends the coinbases of some heights. -/
def spender (heights : List Nat) (vout : List CTxOut) : CTransaction where
  nVersion := 1
  vin := heights.map inputOf
  vout := vout
  nLockTime := 0x80000000

/-- The output of a quiet coinbase. -/
def subsidyAt (nHeight : Nat) : CTxOut :=
  ⟨getBlockValue nHeight 0, [OP_1]⟩

theorem subsidyAt_not_null (nHeight : Nat) :
    (subsidyAt nHeight).isNull = false := by
  have range := moneyRange_getBlockValue nHeight
  simp only [moneyRange, decide_eq_true_eq] at range
  apply decide_eq_false
  intro isNull
  have value : getBlockValue nHeight 0 = -1 := isNull
  rw [value] at range
  exact absurd range.1 (by decide)

theorem mintedCoins_eq (nHeight : Nat) :
    mintedCoins nHeight [] =
      ⟨true, [subsidyAt nHeight], Int32.ofInt nHeight, 1⟩ := by
  have spendable : isUnspendable (subsidyAt nHeight).scriptPubKey = false :=
    rfl
  have kept :
      [subsidyAt nHeight].rdropWhile CTxOut.isNull = [subsidyAt nHeight] := by
    apply List.rdropWhile_concat_neg CTxOut.isNull [] (subsidyAt nHeight)
    rw [subsidyAt_not_null]
    simp
  rw [mintedCoins, CCoins.ofTransaction, CCoins.clearUnspendable,
    CCoins.cleanup]
  have outputs : (mintedCoinBase nHeight []).vout = [subsidyAt nHeight] := rfl
  simp only [outputs, List.map_cons, List.map_nil, spendable,
    Bool.false_eq_true, if_false, kept]
  rfl

/-- The coinbases of the heights are unspent. -/
def Unspent (view : CCoinsView) (heights : List Nat) : Prop :=
  ∀ nHeight ∈ heights,
    view.coins (BitVec.ofNat 256 nHeight) = some (mintedCoins nHeight [])

theorem outputFor?_inputOf
    {view : CCoinsView} {nHeight : Nat}
    (unspent :
      view.coins (BitVec.ofNat 256 nHeight) =
        some (mintedCoins nHeight [])) :
    view.outputFor? (inputOf nHeight) = some (subsidyAt nHeight) := by
  rw [CCoinsView.outputFor?]
  simp only [inputOf, unspent, mintedCoins_eq]
  simp [CCoins.isAvailable, subsidyAt_not_null]

theorem spend_mintedCoins (nHeight : Nat) :
    (mintedCoins nHeight []).spend 0 =
      some ⟨true, [], Int32.ofInt nHeight, 1⟩ := by
  rw [mintedCoins_eq, CCoins.spend]
  simp only [List.getElem?_cons_zero, subsidyAt_not_null, Bool.false_eq_true,
    if_false]
  rfl

theorem spendInputs_spender
    {view : CCoinsView} {heights : List Nat}
    (unspent : Unspent view heights)
    (distinct : heights.Nodup)
    (small : ∀ nHeight ∈ heights, nHeight < 2 ^ 32) :
    ∃ spent, view.spendInputs (heights.map inputOf) = .ok spent ∧
      ∀ txid, (∀ nHeight ∈ heights, txid ≠ BitVec.ofNat 256 nHeight) →
        spent.coins txid = view.coins txid := by
  induction heights generalizing view with
  | nil => exact ⟨view, rfl, fun _ _ => rfl⟩
  | cons first rest inductionHypothesis =>
      rcases List.nodup_cons.mp distinct with ⟨notInRest, restDistinct⟩
      have others :
          ∀ nHeight ∈ rest,
            BitVec.ofNat 256 nHeight ≠ BitVec.ofNat 256 first := by
        intro nHeight member equal
        have same :=
          ofNat_injective
            (small nHeight (List.mem_cons_of_mem _ member))
            (small first (by simp)) equal
        rw [same] at member
        exact notInRest member
      have restUnspent :
          Unspent
            (view.setCoins (BitVec.ofNat 256 first)
              ⟨true, [], Int32.ofInt first, 1⟩) rest := by
        intro nHeight member
        rw [CCoinsView.setCoins_of_ne _ _ (others nHeight member)]
        exact unspent nHeight (List.mem_cons_of_mem _ member)
      rcases inductionHypothesis restUnspent restDistinct
          (fun nHeight member => small nHeight (List.mem_cons_of_mem _ member))
        with ⟨spent, runs, kept⟩
      refine ⟨spent, ?_, ?_⟩
      · rw [List.map_cons, CCoinsView.spendInputs]
        simp only [inputOf, unspent first (by simp)]
        exact (by simpa [spend_mintedCoins] using runs)
      · intro txid away
        rw [kept txid (fun nHeight member =>
            away nHeight (List.mem_cons_of_mem _ member)),
          CCoinsView.setCoins_of_ne _ _ (away first (by simp))]

/-- The value of some early coinbases. -/
def coinBaseValue (count : Nat) : Int64 :=
  Int64.ofNat (10000000000000 * count)

theorem subsidyAt_value
    {nHeight : Nat} (early : nHeight < 101) :
    (subsidyAt nHeight).nValue = coinBaseValue 1 := by
  have value : getBlockValue nHeight 0 = coinBaseValue 1 := by
    rw [getBlockValue, if_pos early]
    decide
  exact value

theorem coinBaseValue_succ (count : Nat) :
    coinBaseValue count + coinBaseValue 1 = coinBaseValue (count + 1) := by
  rw [coinBaseValue, coinBaseValue, coinBaseValue, Nat.mul_add,
    Int64.ofNat_add]

theorem toInt_coinBaseValue {count : Nat} (few : count ≤ 500) :
    (coinBaseValue count).toInt = 10000000000000 * count := by
  rw [coinBaseValue, Int64.toInt_ofNat_of_lt (by omega)]
  simp

theorem moneyRange_coinBaseValue {count : Nat} (few : count ≤ 500) :
    moneyRange (coinBaseValue count) = true := by
  have value := toInt_coinBaseValue few
  have maximum : MAX_MONEY.toInt = 5200000000000000 := by decide
  have nonneg : (0 : Int64) ≤ coinBaseValue count := by
    rw [Int64.le_iff_toInt_le, value]
    simp
  have bounded : coinBaseValue count ≤ MAX_MONEY := by
    rw [Int64.le_iff_toInt_le, value, maximum]
    omega
  exact decide_eq_true ⟨nonneg, bounded⟩

/-- The coinbases can be spent by a block of a height. -/
structure Spendable
    (view : CCoinsView) (heights : List Nat) (nSpendHeight : Nat) : Prop where
  unspent : Unspent view heights
  early : ∀ nHeight ∈ heights, nHeight < 101
  mature : ∀ nHeight ∈ heights, nHeight + 100 ≤ nSpendHeight

theorem checkInput_inputOf
    {view : CCoinsView} {nHeight nSpendHeight count : Nat}
    (unspent :
      view.coins (BitVec.ofNat 256 nHeight) = some (mintedCoins nHeight []))
    (early : nHeight < 101)
    (mature : nHeight + 100 ≤ nSpendHeight)
    (few : count + 1 ≤ 500) :
    checkInput view nSpendHeight (coinBaseValue count) (inputOf nHeight) =
      .ok (coinBaseValue (count + 1)) := by
  have height : (Int32.ofInt nHeight).toInt = nHeight := by
    rw [Int32.toInt_ofInt]
    exact Int.bmod_eq_of_le (by simp) (by simp; omega)
  have isMature : matured (mintedCoins nHeight []) nSpendHeight = true := by
    rw [mintedCoins_eq, matured, Bool.not_true, Bool.false_or, height,
      COINBASE_MATURITY]
    exact decide_eq_true (by omega)
  have single : moneyRange (coinBaseValue 1) = true :=
    moneyRange_coinBaseValue (by decide)
  have total := moneyRange_coinBaseValue few
  simp only [checkInput, inputOf, unspent, bind_eq_ok, require_eq_ok]
  refine ⟨(), isMature, ?_⟩
  rw [mintedCoins_eq]
  simp only [UInt32.toNat_zero, List.getElem?_cons_zero,
    subsidyAt_value early, coinBaseValue_succ, bind_eq_ok, require_eq_ok]
  refine ⟨(), ?_, rfl⟩
  rw [single, total]
  rfl

theorem foldlM_checkInput
    {view : CCoinsView} {heights : List Nat} {nSpendHeight count : Nat}
    (spendable : Spendable view heights nSpendHeight)
    (few : count + heights.length ≤ 500) :
    (heights.map inputOf).foldlM (checkInput view nSpendHeight)
        (coinBaseValue count) =
      .ok (coinBaseValue (count + heights.length)) := by
  induction heights generalizing count with
  | nil => rfl
  | cons first rest inductionHypothesis =>
      rw [List.length_cons] at few
      have later :
          Spendable view rest nSpendHeight :=
        ⟨fun _ member => spendable.unspent _ (List.mem_cons_of_mem _ member),
          fun _ member => spendable.early _ (List.mem_cons_of_mem _ member),
          fun _ member => spendable.mature _ (List.mem_cons_of_mem _ member)⟩
      have step :=
        checkInput_inputOf (spendable.unspent first (by simp))
          (spendable.early first (by simp))
          (spendable.mature first (by simp)) (show count + 1 ≤ 500 by omega)
      rw [List.map_cons, List.foldlM_cons, bind_eq_ok]
      refine ⟨_, step, ?_⟩
      rw [inductionHypothesis later (by omega), List.length_cons,
        Nat.add_assoc, Nat.add_comm 1]

theorem foldlM_getOutputFor
    {view : CCoinsView} {heights : List Nat} (count : Nat)
    (unspent : Unspent view heights)
    (early : ∀ nHeight ∈ heights, nHeight < 101) :
    (heights.map inputOf).foldlM
        (fun nResult txin => do
          let txout ← view.getOutputFor txin
          pure (nResult + txout.nValue)) (coinBaseValue count) =
      (Except.ok (coinBaseValue (count + heights.length)) :
        Except Fault Int64) := by
  induction heights generalizing count with
  | nil => rfl
  | cons first rest inductionHypothesis =>
      have output : view.getOutputFor (inputOf first) =
          .ok (subsidyAt first) := by
        rw [CCoinsView.getOutputFor,
          outputFor?_inputOf (unspent first (by simp))]
        rfl
      rw [List.map_cons, List.foldlM_cons, bind_eq_ok]
      refine ⟨coinBaseValue (count + 1), ?_, ?_⟩
      · rw [output, bind_eq_ok]
        refine ⟨_, rfl, ?_⟩
        rw [subsidyAt_value (early first (by simp)), coinBaseValue_succ]
        rfl
      · rw [inductionHypothesis (count + 1)
            (fun _ member => unspent _ (List.mem_cons_of_mem _ member))
            (fun _ member => early _ (List.mem_cons_of_mem _ member)),
          List.length_cons, Nat.add_assoc, Nat.add_comm 1]

theorem foldlM_p2sh
    {view : CCoinsView} {heights : List Nat}
    (unspent : Unspent view heights) :
    (heights.map inputOf).foldlM
        (fun nSigOps txin => do
          let prevout ← view.getOutputFor txin
          pure
            (if isPayToScriptHash prevout.scriptPubKey then
              nSigOps + getScriptHashSigOpCount txin.scriptSig
            else nSigOps)) 0 =
      (Except.ok 0 : Except Fault Nat) := by
  induction heights with
  | nil => rfl
  | cons first rest inductionHypothesis =>
      have output : view.getOutputFor (inputOf first) =
          .ok (subsidyAt first) := by
        rw [CCoinsView.getOutputFor,
          outputFor?_inputOf (unspent first (by simp))]
        rfl
      rw [List.map_cons, List.foldlM_cons, bind_eq_ok]
      refine ⟨0, ?_, ?_⟩
      · rw [output]
        rfl
      · exact inductionHypothesis
          (fun _ member => unspent _ (List.mem_cons_of_mem _ member))

theorem spender_isCoinBase (heights : List Nat) (vout : List CTxOut) :
    (spender heights vout).isCoinBase = false := by
  rcases heights with _ | ⟨first, _ | ⟨second, rest⟩⟩
  · rfl
  · have notNull : (inputOf first).prevout.isNull = false := by
      apply decide_eq_false
      rintro ⟨-, isLast⟩
      exact absurd isLast (show (0 : UInt32) ≠ -1 by decide)
    exact notNull
  · rfl

section Spending

variable {drawEnv : DrawEnv} {snapshot : Snapshot} {tip : CBlockIndex}
  {view : CCoinsView} {heights : List Nat} {vout : List CTxOut}
  {nHeight : Nat} {nValueOut : Int64}

theorem haveInputs_spender (unspent : Unspent view heights) :
    view.haveInputs (spender heights vout) = true := by
  rw [CCoinsView.haveInputs, spender_isCoinBase, Bool.false_or,
    List.all_eq_true]
  intro txin member
  rcases List.mem_map.mp member with ⟨nHeight, inHeights, rfl⟩
  rw [outputFor?_inputOf (unspent nHeight inHeights)]
  rfl

theorem scriptsPass_spender (unspent : Unspent view heights) :
    scriptsPass (during (countingNode drawEnv) snapshot tip) view true
      (spender heights vout) = true := by
  rw [scriptsPass, List.all_eq_true]
  intro entry member
  have inVin := List.fst_mem_of_mem_zipIdx member
  rcases List.mem_map.mp inVin with ⟨nHeight, inHeights, isInput⟩
  rw [← isInput, outputFor?_inputOf (unspent nHeight inHeights)]
  rfl

/-- The fee of a transaction that spends coinbases. -/
theorem feeRange_spender
    (few : heights.length ≤ 500)
    (nonneg : 0 ≤ nValueOut)
    (enough : nValueOut ≤ coinBaseValue heights.length) :
    moneyRange (coinBaseValue heights.length - nValueOut) = true := by
  have total := toInt_coinBaseValue few
  have enoughInt := Int64.le_iff_toInt_le.mp enough
  have nonnegInt := Int64.le_iff_toInt_le.mp nonneg
  rw [show (0 : Int64).toInt = 0 from rfl] at nonnegInt
  have fee :
      (coinBaseValue heights.length - nValueOut).toInt =
        (coinBaseValue heights.length).toInt - nValueOut.toInt :=
    toInt_sub_of_bounds (by omega) (by omega)
  have feeNonneg : 0 ≤ coinBaseValue heights.length - nValueOut := by
    rw [Int64.le_iff_toInt_le, fee, show (0 : Int64).toInt = 0 from rfl]
    omega
  have maximum : MAX_MONEY.toInt = 5200000000000000 := by decide
  refine decide_eq_true ⟨feeNonneg, ?_⟩
  rw [Int64.le_iff_toInt_le, fee, maximum]
  omega

theorem checkInputs_spender
    (spendable : Spendable view heights nHeight)
    (few : heights.length ≤ 500)
    (value : getValueOut (spender heights vout) = .ok nValueOut)
    (nonneg : 0 ≤ nValueOut)
    (enough : nValueOut ≤ coinBaseValue heights.length) :
    checkInputs (during (countingNode drawEnv) snapshot tip) view nHeight true
      true (spender heights vout) = .ok () := by
  have inputs :=
    foldlM_checkInput spendable (show 0 + heights.length ≤ 500 by omega)
  rw [Nat.zero_add] at inputs
  have feeRange :=
    feeRange_spender few nonneg enough
  have feeNonneg := feeRange
  simp only [moneyRange, decide_eq_true_eq] at feeNonneg
  simp only [checkInputs, bind_eq_ok, require_eq_ok, orFault_eq_ok]
  refine ⟨(), haveInputs_spender spendable.unspent, _, inputs, nValueOut,
    value, (), decide_eq_true enough, (), decide_eq_true feeNonneg.1, (),
    feeRange, ?_⟩
  rw [scriptsPass_spender spendable.unspent]
  rfl

theorem getValueIn_spender (spendable : Spendable view heights nHeight) :
    view.getValueIn (spender heights vout) =
      .ok (coinBaseValue heights.length) := by
  have total := foldlM_getOutputFor 0 spendable.unspent spendable.early
  rw [Nat.zero_add] at total
  rw [CCoinsView.getValueIn, spender_isCoinBase, if_neg Bool.false_ne_true]
  exact total

/-- A transaction that spends coinbases is connected. -/
theorem connectTransaction_spender
    (drawEnv : DrawEnv) (snapshot : Snapshot) (tip : CBlockIndex)
    (nFees : Int64) {nSigOps : Nat}
    (spendable : Spendable view heights nHeight)
    (distinct : heights.Nodup)
    (few : heights.length ≤ 500)
    (value : getValueOut (spender heights vout) = .ok nValueOut)
    (nonneg : 0 ≤ nValueOut)
    (enough : nValueOut ≤ coinBaseValue heights.length)
    (sigOps :
      nSigOps + getLegacySigOpCount (spender heights vout) ≤
        MAX_BLOCK_SIGOPS) :
    ∃ next,
      connectTransaction (during (countingNode drawEnv) snapshot tip) nHeight
          true true ⟨view, nFees, nSigOps⟩ (spender heights vout) =
        .ok ⟨next,
          nFees + (coinBaseValue heights.length - nValueOut),
          nSigOps + getLegacySigOpCount (spender heights vout)⟩ ∧
      ∀ txid, (∀ nHeight ∈ heights, txid ≠ BitVec.ofNat 256 nHeight) →
        txid ≠ BitVec.ofNat 256 0x80000000 →
        next.coins txid = view.coins txid := by
  have small : ∀ nHeight ∈ heights, nHeight < 2 ^ 32 := by
    intro nHeight member
    have early := spendable.early nHeight member
    omega
  rcases spendInputs_spender spendable.unspent distinct small with
    ⟨spent, runs, kept⟩
  have regular := spender_isCoinBase heights vout
  have scriptHashes :
      getP2SHSigOpCount view (spender heights vout) = .ok 0 := by
    rw [getP2SHSigOpCount, regular, if_neg Bool.false_ne_true]
    exact foldlM_p2sh spendable.unspent
  have updated :
      updateCoins (during (countingNode drawEnv) snapshot tip) view nHeight
          (spender heights vout) =
        .ok (spent.setCoins (BitVec.ofNat 256 0x80000000)
          (CCoins.ofTransaction (spender heights vout)
            (Int32.ofInt nHeight))) := by
    rw [updateCoins, markSpent, regular, if_neg Bool.false_ne_true]
    exact bind_eq_ok.mpr ⟨spent, runs, rfl⟩
  refine ⟨spent.setCoins (BitVec.ofNat 256 0x80000000)
      (CCoins.ofTransaction (spender heights vout) (Int32.ofInt nHeight)),
    ?_, ?_⟩
  · simp only [connectTransaction, connectInputs, regular, bind_eq_ok,
      require_eq_ok, orFault_eq_ok, Bool.false_eq_true, if_false, if_true]
    exact ⟨(), decide_eq_true sigOps, _,
      ⟨(), haveInputs_spender spendable.unspent, 0, scriptHashes, (),
        decide_eq_true sigOps, _, getValueIn_spender spendable, _, value, (),
        checkInputs_spender spendable few value nonneg enough, rfl⟩,
      _, updated, rfl⟩
  · intro txid away other
    rw [CCoinsView.setCoins_of_ne _ _ other]
    exact kept txid away

end Spending

/-! ## Blocks with bets -/

/-- A block that spends coinbases and adds its bets to the pool. -/
def betBlock
    (pprev : CBlockIndex) (nCurBetValue : Int64) (heights : List Nat)
    (vout : List CTxOut) : CBlock :=
  mintedBlock pprev
    (quietHeader (pprev.item.lottoHeader.llPool + nCurBetValue)) []
    [spender heights vout]

/-- What the outputs of the spending transaction have to satisfy. -/
structure Placeable
    (tipHeight : Nat) (heights : List Nat) (vout : List CTxOut)
    (nValueOut nCurBetValue : Int64) : Prop where
  checked : checkTransaction (spender heights vout) = .ok ()
  distinct : heights.Nodup
  few : heights.length ≤ 500
  value : getValueOut (spender heights vout) = .ok nValueOut
  nonneg : 0 ≤ nValueOut
  enough : nValueOut ≤ coinBaseValue heights.length
  bets :
    getLottoValueFromTx .main tipHeight (spender heights vout) =
      .ok nCurBetValue
  size : sizeBound (spender heights vout) ≤ 100000
  sigOps : getLegacySigOpCount (spender heights vout) ≤ MAX_BLOCK_SIGOPS

theorem lockTimeHash_spender (heights : List Nat) (vout : List CTxOut) :
    lockTimeHash (spender heights vout) = BitVec.ofNat 256 0x80000000 :=
  rfl

theorem ofNat_ne_spender {nHeight : Nat} (small : nHeight < 2 ^ 31) :
    BitVec.ofNat 256 nHeight ≠ BitVec.ofNat 256 0x80000000 := by
  intro equal
  have same := ofNat_injective (by omega) (by decide) equal
  omega

theorem getLottoValueFromBlock_bet
    {tipHeight : Nat} {pprev : CBlockIndex} {lottoHeader : CLottoHeader}
    {heights : List Nat} {vout : List CTxOut} {nCurBetValue : Int64}
    (bets :
      getLottoValueFromTx .main tipHeight (spender heights vout) =
        .ok nCurBetValue) :
    getLottoValueFromBlock .main tipHeight
        (mintedBlock pprev lottoHeader [] [spender heights vout]) =
      .ok nCurBetValue := by
  rw [getLottoValueFromBlock, mintedBlock, lottoValueFromTxs, bind_eq_ok]
  refine ⟨0, rfl, ?_⟩
  rw [lottoValueFromTxs, bind_eq_ok]
  refine ⟨nCurBetValue, bets, ?_⟩
  rw [lottoValueFromTxs, Int64.zero_add, Int64.zero_add]
  rfl

/-- Fees raise what a coinbase may pay. -/
theorem getBlockValue_le
    {nHeight : Nat} {nFees : Int64}
    (nonneg : 0 ≤ nFees) (bounded : nFees ≤ MAX_MONEY) :
    getBlockValue nHeight 0 ≤ getBlockValue nHeight nFees := by
  have maximum : MAX_MONEY.toInt = 5200000000000000 := by decide
  have zero : (0 : Int64).toInt = 0 := rfl
  rw [Int64.le_iff_toInt_le] at nonneg bounded
  rw [zero] at nonneg
  rw [maximum] at bounded
  have add :
      ∀ nSubsidy : Int64, 0 ≤ nSubsidy.toInt →
        nSubsidy.toInt ≤ 10000000000000 →
          nSubsidy + 0 ≤ nSubsidy + nFees := by
    intro nSubsidy subsidyNonneg subsidyBounded
    rw [Int64.add_zero, Int64.le_iff_toInt_le,
      toInt_add_of_bounds (by omega) (by omega)]
    omega
  rw [getBlockValue, getBlockValue]
  split_ifs <;> apply add <;> decide

section Betting

variable {drawEnv : DrawEnv} {admissible : Snapshot → Prop}
  {tip : CBlockIndex} {view : CCoinsView} {heights : List Nat}
  {vout : List CTxOut} {nValueOut nCurBetValue : Int64}

/-- A block with bets can follow a quiet chain. -/
theorem mintable_bet
    (quiet : Quiet drawEnv admissible tip view)
    {snapshot : Snapshot}
    (late : 1404273600 ≤ snapshot.nAdjustedTime)
    (small : tip.height + 1 < 2 ^ 31)
    (unused : view.coins (BitVec.ofNat 256 0x80000000) = none)
    (placeable :
      Placeable tip.height heights vout nValueOut nCurBetValue) :
    Mintable drawEnv snapshot tip view
      (quietHeader (tip.item.lottoHeader.llPool + nCurBetValue)) []
      [spender heights vout] := by
  have small32 : tip.height + 1 < 2 ^ 32 := lt_trans small (by decide)
  have near :
      ¬ 1 < Int32.ofInt BTC_START_HIGHT -
        CLottoHeader.getLastBitcoinHeight tip.item.lottoHeader := by
    rw [quiet.last]
    decide
  have fresh := quiet.unused (tip.height + 1) (Nat.lt_succ_self _) small
  constructor
  case small => exact small32
  case late => exact late
  case size =>
    have bound :
        (betBlock tip nCurBetValue heights vout).serialize.length ≤
          150 + 36 * 1 + (95 + (sizeBound (spender heights vout) + 0)) :=
      length_block (betBlock tip nCurBetValue heights vout)
    have size := placeable.size
    rw [betBlock] at bound
    rw [MAX_BLOCK_SIZE]
    omega
  case number => exact show 1 + 1 ≤ MAX_BLOCK_SIZE by decide
  case regular =>
    intro tx member
    rw [List.mem_singleton.mp member]
    exact spender_isCoinBase heights vout
  case transactions =>
    intro tx member
    rcases List.mem_cons.mp member with rfl | isSpender
    · exact checkTransaction_coinBase (tip.height + 1)
    · rw [List.mem_singleton.mp isSpender]
      exact placeable.checked
  case distinct =>
    rw [List.map_cons, List.map_cons, List.map_nil,
      lockTimeHash_mintedCoinBase [] small32, lockTimeHash_spender]
    simpa using ofNat_ne_spender small
  case sigOps =>
    show 0 + 0 + (getLegacySigOpCount (spender heights vout) + 0) ≤ _
    have sigOps := placeable.sigOps
    omega
  case best => exact quiet.best
  case unspent =>
    intro tx member
    rcases List.mem_cons.mp member with rfl | isSpender
    · rw [lockTimeHash_mintedCoinBase [] small32]
      exact fresh
    · rw [List.mem_singleton.mp isSpender, lockTimeHash_spender]
      exact unused
  case lotto =>
    apply checkLottoResult_minted small32
    · exact checkBitcoinPart_start _ _ _ rfl near
    · exact checkPool_quiet (getLottoValueFromBlock_bet placeable.bets)
        rfl rfl quiet.key

/-- The coinbase of the block does not touch the coinbases it spends. -/
theorem spendable_afterCoinBase
    (small : tip.height + 1 < 2 ^ 31)
    (spendable : Spendable view heights (tip.height + 1)) :
    Spendable (afterCoinBase view (tip.height + 1) []).view heights
      (tip.height + 1) := by
  refine ⟨?_, spendable.early, spendable.mature⟩
  intro nHeight member
  have mature := spendable.mature nHeight member
  rw [afterCoinBase, CCoinsView.setCoins_of_ne]
  · exact spendable.unspent nHeight member
  · intro equal
    have same := ofNat_injective (by omega) (by omega) equal
    omega

/-- The loop over the transactions of a block with bets. -/
theorem connect_bet
    (drawEnv : DrawEnv) (snapshot : Snapshot)
    (small : tip.height + 1 < 2 ^ 31)
    (spendable : Spendable view heights (tip.height + 1))
    (placeable :
      Placeable tip.height heights vout nValueOut nCurBetValue) :
    ∃ next,
      [spender heights vout].foldlM
          (connectTransaction (during (countingNode drawEnv) snapshot tip)
            (tip.height + 1) true true)
          (afterCoinBase view (tip.height + 1) []) =
        .ok ⟨next, 0 + (coinBaseValue heights.length - nValueOut),
          0 + getLegacySigOpCount (spender heights vout)⟩ ∧
      ∀ txid, (∀ nHeight ∈ heights, txid ≠ BitVec.ofNat 256 nHeight) →
        txid ≠ BitVec.ofNat 256 0x80000000 →
        next.coins txid =
          (afterCoinBase view (tip.height + 1) []).view.coins txid := by
  have sigOps :
      0 + getLegacySigOpCount (spender heights vout) ≤ MAX_BLOCK_SIGOPS := by
    rw [Nat.zero_add]
    exact placeable.sigOps
  rcases connectTransaction_spender drawEnv snapshot tip 0
      (spendable_afterCoinBase small spendable) placeable.distinct
      placeable.few placeable.value placeable.nonneg placeable.enough sigOps
    with ⟨next, connected, kept⟩
  refine ⟨next, ?_, kept⟩
  rw [List.foldlM_cons]
  exact bind_eq_ok.mpr ⟨_, connected, rfl⟩

theorem fees_bet
    (nHeight : Nat) {tipHeight : Nat}
    (placeable :
      Placeable tipHeight heights vout nValueOut nCurBetValue) :
    getBlockValue nHeight 0 ≤
      getBlockValue nHeight
        (0 + (coinBaseValue heights.length - nValueOut)) := by
  rw [Int64.zero_add]
  have range :=
    feeRange_spender placeable.few placeable.nonneg placeable.enough
  simp only [moneyRange, decide_eq_true_eq] at range
  exact getBlockValue_le range.1 range.2

/-- A block with bets keeps the chain quiet. -/
theorem Quiet.bet
    (quiet : Quiet drawEnv admissible tip view)
    (snapshot : Snapshot)
    (admitted : admissible snapshot)
    (late : 1404273600 ≤ snapshot.nAdjustedTime)
    (small : tip.height + 1 < 2 ^ 31)
    (unused : view.coins (BitVec.ofNat 256 0x80000000) = none)
    (spendable : Spendable view heights (tip.height + 1))
    (placeable :
      Placeable tip.height heights vout nValueOut nCurBetValue) :
    ∃ next,
      Quiet drawEnv admissible
        (.child tip (betBlock tip nCurBetValue heights vout)) next := by
  have small32 : tip.height + 1 < 2 ^ 32 := lt_trans small (by decide)
  have mintable := mintable_bet quiet late small unused placeable
  rcases connect_bet drawEnv snapshot small spendable placeable with
    ⟨next, run, kept⟩
  refine ⟨_, mintable.accepted run (fees_bet _ placeable) quiet.chain admitted,
    blockHash_mintedBlock small32, rfl, rfl, ?_⟩
  intro nHeight above below
  rw [Lineage.height_child] at above
  have away : nHeight ≠ tip.height + 1 := by omega
  rw [kept]
  · rw [afterCoinBase, CCoinsView.setCoins_of_ne]
    · exact quiet.unused nHeight (by omega) below
    · intro equal
      exact away (ofNat_injective (by omega) small32 equal)
  · intro spent member equal
    have mature := spendable.mature spent member
    have same := ofNat_injective (by omega) (by omega) equal
    omega
  · exact ofNat_ne_spender below

end Betting

/-- Quiet blocks, one block with bets, and quiet blocks again. -/
def chainWithBet
    (count later : Nat) (nCurBetValue : Int64) (heights : List Nat)
    (vout : List CTxOut) : CBlockIndex :=
  quietChain later
    (.child (quietChain count (.root genesisBlock))
      (betBlock (quietChain count (.root genesisBlock)) nCurBetValue heights
        vout))

/-- Such a chain is accepted when the spent coinbases are mature. -/
theorem quiet_chainWithBet
    (drawEnv : DrawEnv) (count later : Nat) {heights : List Nat}
    {vout : List CTxOut} {nValueOut nCurBetValue : Int64}
    (placeable : Placeable count heights vout nValueOut nCurBetValue)
    (minted : ∀ nHeight ∈ heights, 0 < nHeight ∧ nHeight < 101)
    (mature : ∀ nHeight ∈ heights, nHeight + 100 ≤ count + 1)
    (small : count + 1 + later < 2 ^ 31) :
    ∃ view,
      Quiet drawEnv (fun _ => True)
        (chainWithBet count later nCurBetValue heights vout) view := by
  have late : 1404273600 ≤ (snapshotOf startChain).nAdjustedTime := by decide
  have height :
      (quietChain count (.root genesisBlock)).height = count := by
    rw [height_quietChain, Lineage.height_root, Nat.zero_add]
  rcases (quiet_genesis drawEnv (fun _ => True)).run count
      (snapshotOf startChain) trivial late
      (by rw [Lineage.height_root]; omega) with ⟨early, quiet, run⟩
  rw [← height] at placeable mature
  have unused : early.coins (BitVec.ofNat 256 0x80000000) = none := by
    rw [run.kept]
    intro nHeight above below equal
    rw [Lineage.height_root] at below
    exact ofNat_ne_spender (by omega) equal.symm
  have spendable :
      Spendable early heights
        ((quietChain count (.root genesisBlock)).height + 1) := by
    refine ⟨?_, fun nHeight member => (minted nHeight member).2, mature⟩
    intro nHeight member
    have isMature := mature nHeight member
    apply run.minted nHeight
    · rw [Lineage.height_root]
      exact (minted nHeight member).1
    · rw [Lineage.height_root]
      omega
  rcases Quiet.bet quiet (snapshotOf startChain) trivial late
      (by rw [height]; omega) unused spendable placeable with
    ⟨afterBet, quietAfter⟩
  rcases quietAfter.run later (snapshotOf startChain) trivial late
      (by rw [Lineage.height_child, height]; omega) with ⟨view, quietTip, -⟩
  exact ⟨view, quietTip⟩

end DSValue.Consensus.BetChain

import DSValue.Lib.Loop
import DSValue.Wallet.MinFee
import Mathlib.Data.Finset.Sort
import Mathlib.Data.Prod.Lex

/-!
# Wallet transactions

`CreateTransaction` pays some recipients.  Its loop selects coins for the
payments and a fee, returns the change or adds it to the fee, signs, and is
left when the fee covers the least fee of the transaction that it has built;
otherwise it starts again with that fee.  The priority that makes a
transaction free, the signatures, the script and the position of the change
and the choices of the coin selection are open in every pass.
-/

namespace DSValue.Wallet.CreateTransaction

open DSValue.Lib
open DSValue.Core.Serialize
open DSValue.Core.Transaction
open DSValue.Lotto.Bet
open DSValue.Script.Scan
open DSValue.Consensus.TxOut
open DSValue.Consensus.CheckBlock
open DSValue.Consensus.ConnectBlock
open DSValue.Mempool.Accept hiding getMinFee
open DSValue.Wallet.CoinSelection
open DSValue.Wallet.MinFee

def MAX_STANDARD_TX_SIZE : Nat := 100000

/-- What the wallet knows: its settings, the tip and `AvailableCoins`. -/
structure CWallet where
  network : Network
  tipHeight : Nat
  nTransactionFee : Int64
  rates : FeeRates
  vCoins : List COutput
  hasSelected : Bool
  bSpendZeroConfChange : Bool
  getHash : Nat → Uint256

/-- What is open in a pass of the loop. -/
structure Oracles where
  choices : Nat → Choices
  scriptChange : Option CScript
  getRandInt : Nat → Nat
  getRandInt_lt : ∀ nMax, 0 < nMax → getRandInt nMax < nMax
  signSignature : CTransaction → Nat → Option CScript
  fAllowFree : Bool

/-- `strFailReason`, or a fault of the code. -/
inductive Stop where
  | failed (strFailReason : String)
  | fault (fault : Fault)
deriving DecidableEq

def orStop {α : Type} (run : Except Fault α) : Except Stop α :=
  run.mapError .fault

def orOutOfRange {α : Type} : Option α → Except Stop α
  | some value => pure value
  | none => throw (.fault .outOfRange)

/-! ## The parts of a pass -/

/-- `CWallet::SelectCoins`. -/
def selectCoins (wallet : CWallet) (nTargetValue : Int64)
    (choices : Nat → Choices) : Option Selection :=
  if wallet.hasSelected then
    let selection := selectAll (wallet.vCoins.map COutput.coin)
    some { selection with fRet := nTargetValue ≤ selection.nValueRet }
  else do
    let first ← selectCoinsMinConf nTargetValue 1 6 wallet.vCoins (choices 0)
    if first.fRet then some first
    else
      let second ← selectCoinsMinConf nTargetValue 1 1 wallet.vCoins (choices 1)
      if second.fRet ∨ ¬ wallet.bSpendZeroConfChange then some second
      else selectCoinsMinConf nTargetValue 0 1 wallet.vCoins (choices 2)

/-- The amounts are added up, as long as the sum is not negative. -/
def sumPayments : List (CScript × Int64) → Int64 → Option Int64
  | [], nValue => if nValue < 0 then none else some nValue
  | s :: vecSend, nValue =>
      if nValue < 0 then none else sumPayments vecSend (nValue + s.2)

/-- The output to a payee. -/
def payeeOutput (s : CScript × Int64) : CTxOut := ⟨s.2, s.1⟩

/-- The outputs to the payees, none of them dust. -/
def payees (nMinRelayTxFee : Int64) :
    List (CScript × Int64) → Except Stop (List CTxOut)
  | [] => pure []
  | s :: vecSend => do
      let dust ← orStop (isDust (payeeOutput s) nMinRelayTxFee)
      if dust then throw (.failed "Transaction amount too small")
      else do
        let vout ← payees nMinRelayTxFee vecSend
        pure (payeeOutput s :: vout)

/-- What small change gives to a fee below `nMinTxFee`. -/
def moveToFee (nMinTxFee nFeeRet nChange : Int64) : Int64 :=
  if nFeeRet < nMinTxFee ∧ 0 < nChange ∧ nChange < CENT then
    if nMinTxFee - nFeeRet < nChange then nMinTxFee - nFeeRet else nChange
  else 0

/-- The change is an output at a random position, or dust for the fee. -/
def addChange (oracles : Oracles) (nMinRelayTxFee : Int64) (vout : List CTxOut)
    (nFeeRet nChange : Int64) : Except Stop (List CTxOut × Int64) :=
  if 0 < nChange then
    match oracles.scriptChange with
    | none => throw (.fault .assertion)
    | some scriptChange => do
        let newTxOut : CTxOut := ⟨nChange, scriptChange⟩
        let dust ← orStop (isDust newTxOut nMinRelayTxFee)
        if dust then pure (vout, nFeeRet + nChange)
        else
          pure
            (vout.insertIdx (oracles.getRandInt (vout.length + 1)) newTxOut,
              nFeeRet)
  else pure (vout, nFeeRet)

/-- The coins in the order of `setCoins`. -/
def coinKeys (setCoins : Finset CoinKey) : List CoinKey :=
  ((setCoins.image toLex).sort (· ≤ ·)).map ofLex

/-- The outpoint of a coin. -/
def CWallet.prevout (wallet : CWallet) (coin : CoinKey) : COutPoint :=
  ⟨wallet.getHash coin.1, UInt32.ofNat coin.2⟩

def CWallet.txin (wallet : CWallet) (coin : CoinKey) : CTxIn :=
  ⟨wallet.prevout coin, [], 0xffffffff⟩

/-- An input is signed. -/
def signInput (oracles : Oracles) (wtxNew : CTransaction) (nIn : Nat) :
    Except Stop CTransaction :=
  match oracles.signSignature wtxNew nIn, wtxNew.vin[nIn]? with
  | none, _ => throw (.failed "Signing transaction failed")
  | some _, none => throw (.fault .outOfRange)
  | some scriptSig, some txin =>
      pure
        { wtxNew with
          vin := wtxNew.vin.set nIn { txin with scriptSig := scriptSig } }

/-- `GetSerializeSize` as an `unsigned int`. -/
def serializeSize (tx : CTransaction) : Nat := tx.serialize.length % 2 ^ 32

/-! ## The loop -/

/-- The transaction, its fee, and the coins that it spends. -/
structure Created where
  wtxNew : CTransaction
  nFeeRet : Int64
  setCoins : Finset CoinKey
  nValueIn : Int64
deriving DecidableEq

/-- A pass ends the loop, or starts it again with another fee. -/
inductive Attempt where
  | again (nFeeRet : Int64)
  | created (result : Created)

/-- The body of the loop. -/
def attempt (wallet : CWallet) (oracles : Oracles) (wtxNew : CTransaction)
    (vecSend : List (CScript × Int64)) (nValue nFeeRet : Int64) :
    Except Stop Attempt := do
  let vout ← payees wallet.rates.nMinRelayTxFee vecSend
  let selection ←
    orOutOfRange (selectCoins wallet (nValue + nFeeRet) oracles.choices)
  if !selection.fRet then throw (.failed "Insufficient funds")
  else do
    let nChange := selection.nValueRet - nValue - nFeeRet
    let nMoveToFee := moveToFee wallet.rates.nMinTxFee nFeeRet nChange
    let changed ←
      addChange oracles wallet.rates.nMinRelayTxFee vout (nFeeRet + nMoveToFee)
        (nChange - nMoveToFee)
    let vin := (coinKeys selection.setCoinsRet).map wallet.txin
    let signed ←
      (List.range vin.length).foldlM (signInput oracles)
        { wtxNew with vin := vin, vout := changed.1 }
    let nBytes := serializeSize signed
    if MAX_STANDARD_TX_SIZE ≤ nBytes then
      throw (.failed "Transaction too large")
    else do
      let nPayFee := feeBySize nBytes wallet.nTransactionFee
      let nMinFee ←
        orStop (getMinFee wallet.network wallet.tipHeight wallet.rates signed
          nBytes oracles.fAllowFree .GMF_SEND)
      let nNeeded := if nPayFee < nMinFee then nMinFee else nPayFee
      if changed.2 < nNeeded then pure (.again nNeeded)
      else
        pure (.created
          ⟨signed, changed.2, selection.setCoinsRet, selection.nValueRet⟩)

/-- The fee and the number of the pass, and the end of the loop. -/
structure Creation where
  nFeeRet : Int64
  nPass : Nat
  result : Option (Except Stop Created)

def createPass (wallet : CWallet) (oracles : Nat → Oracles)
    (wtxNew : CTransaction) (vecSend : List (CScript × Int64)) (nValue : Int64)
    (state : Creation) : Option (Creation × Bool) :=
  match attempt wallet (oracles state.nPass) wtxNew vecSend nValue
      state.nFeeRet with
  | .error stop => some ({ state with result := some (.error stop) }, true)
  | .ok (.again nFeeRet) => some (⟨nFeeRet, state.nPass + 1, none⟩, false)
  | .ok (.created result) =>
      some ({ state with result := some (.ok result) }, true)

/-- The loop with a bound on its passes, and the check of the bets. -/
def createLoop (wallet : CWallet) (oracles : Nat → Oracles)
    (wtxNew : CTransaction) (vecSend : List (CScript × Int64)) (nValue : Int64) :
    Option (Except Stop (Bool × Created)) := do
  let final ←
    Loop.run (createPass wallet oracles wtxNew vecSend nValue) (2 ^ 63)
      ⟨wallet.nTransactionFee, 0, none⟩
  let result ← final.result
  some do
    let created ← result
    let fValid ←
      orStop
        (isTransactionValid wallet.network wallet.tipHeight created.wtxNew)
    pure (fValid, created)

/-- `CWallet::CreateTransaction`. -/
def createTransaction (wallet : CWallet) (oracles : Nat → Oracles)
    (wtxNew : CTransaction) (vecSend : List (CScript × Int64)) :
    Option (Except Stop (Bool × Created)) :=
  match vecSend.isEmpty, sumPayments vecSend 0 with
  | false, some nValue => createLoop wallet oracles wtxNew vecSend nValue
  | _, _ => some (.error (.failed "Transaction amounts must be positive"))

/-! ## Coins and payments -/

variable {wallet : CWallet} {oracles : Oracles} {wtxNew : CTransaction}
  {vecSend : List (CScript × Int64)} {vout : List CTxOut}
  {nTargetValue nValue nFeeRet nChange : Int64} {selection : Selection}

/-- The coins are different outputs whose values are money. -/
structure Funded (wallet : CWallet) : Prop where
  distinct : (wallet.vCoins.map fun output => output.coin.key).Nodup
  nonNegative : ∀ output ∈ wallet.vCoins, 0 ≤ output.nValue.toInt
  money : total (wallet.vCoins.map COutput.coin) ≤ MAX_MONEY.toInt

/-- What a successful selection gives. -/
structure Selects (wallet : CWallet) (nTargetValue : Int64)
    (selection : Selection) : Prop where
  isExact : Exact (wallet.vCoins.map COutput.coin) selection
  enough : nTargetValue.toInt ≤ selection.nValueRet.toInt

theorem Funded.keys (funded : Funded wallet) :
    ((wallet.vCoins.map COutput.coin).map Coin.key).Nodup := by
  rw [List.map_map]
  exact funded.distinct

theorem Funded.coins (funded : Funded wallet) :
    NonNegative (wallet.vCoins.map COutput.coin) := by
  intro coin member
  rcases List.mem_map.mp member with ⟨output, isOutput, rfl⟩
  exact funded.nonNegative output isOutput

theorem selects_of_correct
    (funded : Funded wallet) {nConfMine nConfTheirs : Int32}
    (correct :
      Correct nTargetValue
        (eligibleCoins nConfMine nConfTheirs wallet.vCoins) selection)
    (succeeds : selection.fRet = true) :
    Selects wallet nTargetValue selection :=
  ⟨(correct.isExact succeeds).mono (List.filter_sublist.map _) funded.keys,
    correct.enough succeeds⟩

theorem selectCoins_ends
    (funded : Funded wallet) (room : nTargetValue.toInt + CENT.toInt < 2 ^ 63)
    (choices : Nat → Choices) :
    ∃ selection, selectCoins wallet nTargetValue choices = some selection ∧
      (selection.fRet = true → Selects wallet nTargetValue selection) := by
  have ends := fun nConfMine nConfTheirs call =>
    selectCoinsMinConf_ends funded.distinct funded.nonNegative funded.money room
      nConfMine nConfTheirs (choices call)
  rw [selectCoins]
  split_ifs with hasSelected
  · rcases selectAll_exact funded.keys funded.coins funded.money
        (List.Subperm.refl _) with ⟨isExact, -⟩
    refine ⟨_, rfl, fun succeeds => ⟨⟨succeeds, isExact.subset, isExact.sum⟩, ?_⟩⟩
    exact Int64.le_iff_toInt_le.mp (of_decide_eq_true succeeds)
  · rcases ends 1 6 0 with ⟨first, isFirst, firstCorrect⟩
    rcases ends 1 1 1 with ⟨second, isSecond, secondCorrect⟩
    rcases ends 0 1 2 with ⟨third, isThird, thirdCorrect⟩
    simp only [isFirst, isSecond, isThird, Option.bind_eq_bind, Option.bind_some]
    split_ifs with firstSucceeds secondDecides
    · exact ⟨first, rfl, selects_of_correct funded firstCorrect⟩
    · exact ⟨second, rfl, selects_of_correct funded secondCorrect⟩
    · exact ⟨third, rfl, selects_of_correct funded thirdCorrect⟩

/-- The total of the values of some outputs. -/
def totalOut (vout : List CTxOut) : Int :=
  (vout.map fun txout => txout.nValue.toInt).sum

theorem totalOut_cons (txout : CTxOut) (vout : List CTxOut) :
    totalOut (txout :: vout) = txout.nValue.toInt + totalOut vout :=
  rfl

/-- The payments are outputs whose values are money. -/
def Payable (vecSend : List (CScript × Int64)) : Prop :=
  (absoluteValue (vecSend.map payeeOutput) : Int) ≤ MAX_MONEY.toInt

theorem sumPayments_eq_some
    {start : Int64}
    (added : sumPayments vecSend start = some nValue)
    (few : start.toInt.natAbs + absoluteValue (vecSend.map payeeOutput) < 2 ^ 63) :
    nValue.toInt = start.toInt + totalOut (vecSend.map payeeOutput) ∧
      0 ≤ nValue.toInt := by
  induction vecSend generalizing start with
  | nil =>
      rw [sumPayments] at added
      split_ifs at added with negative
      cases added
      rw [Int64.lt_iff_toInt_lt] at negative
      refine ⟨?_, not_lt.mp negative⟩
      simp [totalOut]
  | cons s vecSend inductionHypothesis =>
      rw [sumPayments] at added
      split_ifs at added
      rw [List.map_cons, absoluteValue, List.map_cons, List.sum_cons,
        ← absoluteValue] at few
      have value : (payeeOutput s).nValue = s.2 := rfl
      rw [value] at few
      have step : (start + s.2).toInt = start.toInt + s.2.toInt :=
        toInt_add_of_bounds (by omega) (by omega)
      rcases inductionHypothesis added (by omega) with ⟨sum, nonNegative⟩
      refine ⟨?_, nonNegative⟩
      rw [sum, step, List.map_cons, totalOut_cons, value, Int.add_assoc]

theorem orStop_eq_ok
    {α : Type} {run : Except Fault α} {value : α} :
    orStop run = .ok value ↔ run = .ok value := by
  cases run with
  | error fault => simp [orStop, Except.mapError]
  | ok result => simp [orStop, Except.mapError]

theorem payees_eq_ok
    {nMinRelayTxFee : Int64} (ran : payees nMinRelayTxFee vecSend = .ok vout) :
    vout = vecSend.map payeeOutput := by
  induction vecSend generalizing vout with
  | nil =>
      cases ran
      rfl
  | cons s vecSend inductionHypothesis =>
      rw [payees] at ran
      rcases bind_eq_ok.mp ran with ⟨dust, -, ran⟩
      split_ifs at ran
      rcases bind_eq_ok.mp ran with ⟨rest, isRest, same⟩
      cases same
      rw [inductionHypothesis isRest, List.map_cons]

/-! ## Change -/

theorem moveToFee_bounds
    (wide : 0 ≤ nFeeRet.toInt) (nonNegative : 0 ≤ nChange.toInt)
    (nMinTxFee : Int64) :
    0 ≤ (moveToFee nMinTxFee nFeeRet nChange).toInt ∧
      (moveToFee nMinTxFee nFeeRet nChange).toInt ≤ nChange.toInt := by
  rw [moveToFee]
  split_ifs with small part
  · have below := Int64.lt_iff_toInt_lt.mp small.1
    have limit := nMinTxFee.toInt_lt
    have less := Int64.lt_iff_toInt_lt.mp part
    have difference : (nMinTxFee - nFeeRet).toInt =
        nMinTxFee.toInt - nFeeRet.toInt :=
      toInt_sub_of_bounds (by omega) (by omega)
    omega
  · exact ⟨nonNegative, le_refl _⟩
  · exact ⟨le_refl _, nonNegative⟩

/-- The outputs are the given ones and at most one more, which is not dust. -/
def WithChange (nMinRelayTxFee : Int64) (payments vout : List CTxOut) : Prop :=
  vout = payments ∨ ∃ position change,
    position ≤ payments.length ∧ vout = payments.insertIdx position change ∧
      0 < change.nValue ∧ isDust change nMinRelayTxFee = .ok false

theorem insertIdx_perm
    {position : Nat} (inside : position ≤ vout.length) (change : CTxOut) :
    (vout.insertIdx position change).Perm (change :: vout) :=
  List.perm_insertIdx change vout inside

theorem totalOut_perm {other : List CTxOut} (same : vout.Perm other) :
    totalOut vout = totalOut other :=
  (same.map _).sum_eq

theorem absoluteValue_perm {other : List CTxOut} (same : vout.Perm other) :
    absoluteValue vout = absoluteValue other :=
  (same.map _).sum_eq

/-- Outputs and fee take the change. -/
theorem addChange_eq_ok
    {nMinRelayTxFee : Int64} {changed : List CTxOut × Int64}
    (ran : addChange oracles nMinRelayTxFee vout nFeeRet nChange = .ok changed)
    (wide : 0 ≤ nFeeRet.toInt) (nonNegative : 0 ≤ nChange.toInt)
    (fits : nFeeRet.toInt + nChange.toInt < 2 ^ 63) :
    WithChange nMinRelayTxFee vout changed.1 ∧
      totalOut changed.1 + changed.2.toInt =
        totalOut vout + nFeeRet.toInt + nChange.toInt ∧
      nFeeRet.toInt ≤ changed.2.toInt ∧
      absoluteValue changed.1 ≤ absoluteValue vout + nChange.toInt.natAbs := by
  rw [addChange] at ran
  split_ifs at ran with positive
  · split at ran
    · cases ran
    next scriptChange isScript =>
      rcases bind_eq_ok.mp ran with ⟨dust, isDust, ran⟩
      rw [orStop_eq_ok] at isDust
      split_ifs at ran with small
      · cases ran
        have added : (nFeeRet + nChange).toInt = nFeeRet.toInt + nChange.toInt :=
          toInt_add_of_bounds (by omega) fits
        refine ⟨Or.inl rfl, ?_, ?_, Nat.le_add_right _ _⟩
        · dsimp only
          omega
        · dsimp only
          omega
      · cases ran
        have inside :=
          oracles.getRandInt_lt (vout.length + 1) (Nat.succ_pos _)
        have same := insertIdx_perm (Nat.le_of_lt_succ inside)
          ⟨nChange, scriptChange⟩
        rw [Bool.eq_false_iff.mpr small] at isDust
        refine
          ⟨Or.inr ⟨_, _, Nat.le_of_lt_succ inside, rfl, positive, isDust⟩, ?_,
            le_refl _, ?_⟩
        · dsimp only
          rw [totalOut_perm same, totalOut, List.map_cons, List.sum_cons,
            totalOut]
          dsimp only
          omega
        · dsimp only
          rw [absoluteValue_perm same, absoluteValue, List.map_cons,
            List.sum_cons, absoluteValue, Nat.add_comm]
  · cases ran
    rw [Int64.lt_iff_toInt_lt, not_lt] at positive
    have zero : (0 : Int64).toInt = 0 := rfl
    refine ⟨Or.inl rfl, ?_, le_refl _, Nat.le_add_right _ _⟩
    dsimp only
    omega

/-! ## Signatures -/

theorem signInput_eq_ok
    {signed : CTransaction} {nIn : Nat}
    (ran : signInput oracles wtxNew nIn = .ok signed) :
    signed.vout = wtxNew.vout ∧
      signed.vin.map CTxIn.prevout = wtxNew.vin.map CTxIn.prevout := by
  rw [signInput] at ran
  split at ran
  · cases ran
  · cases ran
  next scriptSig txin _ found =>
    cases ran
    refine ⟨rfl, ?_⟩
    rcases List.getElem?_eq_some_iff.mp found with ⟨inside, rfl⟩
    have mapped : nIn < (wtxNew.vin.map CTxIn.prevout).length := by
      rwa [List.length_map]
    have same :
        (wtxNew.vin.map CTxIn.prevout)[nIn] = wtxNew.vin[nIn].prevout :=
      List.getElem_map CTxIn.prevout
    dsimp only
    rw [List.map_set]
    dsimp only
    rw [← same, List.set_getElem_self mapped]

theorem signInputs_eq_ok
    {signed : CTransaction} {inputs : List Nat}
    (ran : inputs.foldlM (signInput oracles) wtxNew = .ok signed) :
    signed.vout = wtxNew.vout ∧
      signed.vin.map CTxIn.prevout = wtxNew.vin.map CTxIn.prevout := by
  induction inputs generalizing wtxNew with
  | nil =>
      cases ran
      exact ⟨rfl, rfl⟩
  | cons nIn inputs inductionHypothesis =>
      rw [List.foldlM_cons] at ran
      rcases bind_eq_ok.mp ran with ⟨next, isNext, rest⟩
      rcases signInput_eq_ok isNext with ⟨sameOut, sameIn⟩
      rcases inductionHypothesis rest with ⟨laterOut, laterIn⟩
      exact ⟨laterOut.trans sameOut, laterIn.trans sameIn⟩

/-! ## A pass -/

theorem toInt_feeBySize
    {nBytes : Nat} {nRate : Int64} (standard : nBytes < MAX_STANDARD_TX_SIZE)
    (nonNegative : 0 ≤ nRate.toInt) (money : nRate.toInt ≤ MAX_MONEY.toInt) :
    0 ≤ (feeBySize nBytes nRate).toInt ∧
      (feeBySize nBytes nRate).toInt ≤ 100 * MAX_MONEY.toInt := by
  have limit : MAX_MONEY.toInt = 5200000000000000 := by decide
  have size : MAX_STANDARD_TX_SIZE = 100000 := rfl
  have small : 1 + nBytes / 1000 ≤ 100 := by omega
  have factor : (Int64.ofNat (1 + nBytes / 1000)).toInt =
      (1 + nBytes / 1000 : Nat) :=
    Int64.toInt_ofNat_of_lt (by omega)
  have lower : 0 ≤ ((1 + nBytes / 1000 : Nat) : Int) * nRate.toInt :=
    Int.mul_nonneg (Int.natCast_nonneg _) nonNegative
  have upper :
      ((1 + nBytes / 1000 : Nat) : Int) * nRate.toInt ≤ 100 * MAX_MONEY.toInt :=
    Int.mul_le_mul (by omega) money nonNegative (by omega)
  have product : (feeBySize nBytes nRate).toInt =
      ((1 + nBytes / 1000 : Nat) : Int) * nRate.toInt := by
    rw [feeBySize, toInt_mul_of_bounds (by rw [factor]; omega)
      (by rw [factor]; omega), factor]
  rw [product]
  exact ⟨lower, upper⟩

/--
A transaction that balances: it spends coins of the wallet, pays the payees,
and its fee covers its size and its bets.
-/
structure Balanced (wallet : CWallet) (vecSend : List (CScript × Int64))
    (fAllowFree : Bool) (created : Created) : Prop where
  coins :
    ∀ key ∈ created.setCoins, key ∈ (wallet.vCoins.map COutput.coin).map Coin.key
  inputs :
    created.wtxNew.vin.map CTxIn.prevout =
      (coinKeys created.setCoins).map wallet.prevout
  nValueIn :
    created.nValueIn.toInt =
      total ((wallet.vCoins.map COutput.coin).filter fun coin =>
        coin.key ∈ created.setCoins)
  outputs :
    WithChange wallet.rates.nMinRelayTxFee (vecSend.map payeeOutput)
      created.wtxNew.vout
  nFeeRet :
    created.nValueIn.toInt - totalOut created.wtxNew.vout = created.nFeeRet.toInt
  nonNegative : 0 ≤ created.nFeeRet.toInt
  nPayFee :
    feeBySize (serializeSize created.wtxNew) wallet.nTransactionFee ≤
      created.nFeeRet
  nMinFee :
    ∃ nMinFee llLottoFee,
      getMinFee wallet.network wallet.tipHeight wallet.rates created.wtxNew
        (serializeSize created.wtxNew) fAllowFree .GMF_SEND = .ok nMinFee ∧
      getLottoFee wallet.network wallet.tipHeight created.wtxNew =
        .ok llLottoFee ∧
      llLottoFee ≤ nMinFee ∧ nMinFee ≤ created.nFeeRet

/-- The fee at the start of a pass. -/
structure FeeBounds (wallet : CWallet) (nFeeRet : Int64) : Prop where
  nonNegative : 0 ≤ wallet.nTransactionFee.toInt
  atLeast : wallet.nTransactionFee.toInt ≤ nFeeRet.toInt
  atMost : nFeeRet.toInt ≤ 2 ^ 62

/-- The sum of the payments. -/
structure Sums (vecSend : List (CScript × Int64)) (nValue : Int64) : Prop where
  payable : Payable vecSend
  sum : nValue.toInt = totalOut (vecSend.map payeeOutput)
  nonNegative : 0 ≤ nValue.toInt

theorem natAbs_totalOut_le (vout : List CTxOut) :
    (totalOut vout).natAbs ≤ absoluteValue vout := by
  induction vout with
  | nil => exact le_refl _
  | cons txout vout inductionHypothesis =>
      rw [totalOut_cons, absoluteValue, List.map_cons, List.sum_cons,
        ← absoluteValue]
      omega

theorem Sums.le_max (sums : Sums vecSend nValue) :
    nValue.toInt ≤ MAX_MONEY.toInt := by
  have bound := natAbs_totalOut_le (vecSend.map payeeOutput)
  have payable := sums.payable
  rw [Payable] at payable
  rw [sums.sum]
  omega

theorem target_eq
    (sums : Sums vecSend nValue) (bounds : FeeBounds wallet nFeeRet) :
    (nValue + nFeeRet).toInt = nValue.toInt + nFeeRet.toInt := by
  have limit : MAX_MONEY.toInt = 5200000000000000 := by decide
  have nonNegative := sums.nonNegative
  have most := sums.le_max
  have first := bounds.nonNegative
  have least := bounds.atLeast
  have atMost := bounds.atMost
  exact toInt_add_of_bounds (by omega) (by omega)

theorem Selects.le_max
    (funded : Funded wallet) (selects : Selects wallet nTargetValue selection) :
    selection.nValueRet.toInt ≤ MAX_MONEY.toInt := by
  rw [selects.isExact.sum]
  exact (total_le_of_sublist funded.coins List.filter_sublist).trans funded.money

/-- What is selected beyond the payments is change or fee. -/
theorem changed_of_selects
    {rates : FeeRates} {changed : List CTxOut × Int64} (funded : Funded wallet)
    (sums : Sums vecSend nValue) (bounds : FeeBounds wallet nFeeRet)
    (selects : Selects wallet (nValue + nFeeRet) selection)
    (isChange : nChange = selection.nValueRet - nValue - nFeeRet)
    (ran :
      addChange oracles rates.nMinRelayTxFee (vecSend.map payeeOutput)
        (nFeeRet + moveToFee rates.nMinTxFee nFeeRet nChange)
        (nChange - moveToFee rates.nMinTxFee nFeeRet nChange) = .ok changed) :
    WithChange rates.nMinRelayTxFee (vecSend.map payeeOutput) changed.1 ∧
      selection.nValueRet.toInt - totalOut changed.1 = changed.2.toInt ∧
      nFeeRet.toInt ≤ changed.2.toInt ∧ absoluteValue changed.1 ≤ 2 ^ 54 := by
  have limit : MAX_MONEY.toInt = 5200000000000000 := by decide
  have enough := selects.enough
  rw [target_eq sums bounds] at enough
  have most := selects.le_max funded
  have payments := sums.payable
  rw [Payable] at payments
  have total := sums.sum
  have nonNegative := sums.nonNegative
  have fee := bounds.nonNegative.trans bounds.atLeast
  have first : (selection.nValueRet - nValue).toInt =
      selection.nValueRet.toInt - nValue.toInt :=
    toInt_sub_of_bounds (by omega) (by omega)
  have change : nChange.toInt =
      selection.nValueRet.toInt - nValue.toInt - nFeeRet.toInt := by
    rw [isChange, toInt_sub_of_bounds (by omega) (by omega), first]
  rcases moveToFee_bounds fee (by omega : 0 ≤ nChange.toInt) rates.nMinTxFee with
    ⟨moved, part⟩
  have larger : (nFeeRet + moveToFee rates.nMinTxFee nFeeRet nChange).toInt =
      nFeeRet.toInt + (moveToFee rates.nMinTxFee nFeeRet nChange).toInt :=
    toInt_add_of_bounds (by omega) (by omega)
  have smaller : (nChange - moveToFee rates.nMinTxFee nFeeRet nChange).toInt =
      nChange.toInt - (moveToFee rates.nMinTxFee nFeeRet nChange).toInt :=
    toInt_sub_of_bounds (by omega) (by omega)
  rcases addChange_eq_ok ran (by omega) (by omega) (by omega) with
    ⟨outputs, balance, atLeast, few⟩
  exact ⟨outputs, by omega, by omega, by omega⟩

/-- What the body of the loop gives. -/
theorem attempt_eq_ok
    {result : Attempt} (funded : Funded wallet) (sums : Sums vecSend nValue)
    (bounds : FeeBounds wallet nFeeRet)
    (ran : attempt wallet oracles wtxNew vecSend nValue nFeeRet = .ok result) :
    match result with
    | .again next =>
        nFeeRet.toInt < next.toInt ∧ next.toInt ≤ 2 ^ 62
    | .created created => Balanced wallet vecSend oracles.fAllowFree created := by
  have limit : MAX_MONEY.toInt = 5200000000000000 := by decide
  have cent : CENT.toInt = 1000000 := by decide
  have target := target_eq sums bounds
  have most := sums.le_max
  have nonNegative := sums.nonNegative
  have atMost := bounds.atMost
  have atLeast := bounds.atLeast
  rw [attempt] at ran
  rcases bind_eq_ok.mp ran with ⟨vout, isVout, ran⟩
  cases payees_eq_ok isVout
  have room : (nValue + nFeeRet).toInt + CENT.toInt < 2 ^ 63 := by omega
  rcases selectCoins_ends funded room oracles.choices with
    ⟨selection, isSelection, selects⟩
  rw [isSelection] at ran
  rcases bind_eq_ok.mp ran with ⟨_, same, ran⟩
  cases same
  split_ifs at ran with fails
  have selected := selects (by simpa using fails)
  have enough := selected.enough
  have limited := selected.le_max funded
  rcases bind_eq_ok.mp ran with ⟨changed, isChanged, ran⟩
  rcases changed_of_selects funded sums bounds selected rfl isChanged with
    ⟨outputs, balance, increased, few⟩
  rcases bind_eq_ok.mp ran with ⟨signed, isSigned, ran⟩
  rcases signInputs_eq_ok isSigned with ⟨sameOut, sameIn⟩
  dsimp only at ran sameOut sameIn
  split_ifs at ran with large
  have size := toInt_feeBySize (not_le.mp large) bounds.nonNegative (by omega)
  rcases bind_eq_ok.mp ran with ⟨nMinFee, isMinFee, ran⟩
  rw [orStop_eq_ok] at isMinFee
  rcases getMinFee_eq_ok isMinFee (by rw [sameOut]; exact few) with
    ⟨llLottoFee, isLottoFee, includes, bounded⟩
  by_cases short : changed.2 <
      if feeBySize (serializeSize signed) wallet.nTransactionFee < nMinFee then
        nMinFee
      else feeBySize (serializeSize signed) wallet.nTransactionFee
  · rw [if_pos short] at ran
    cases ran
    rw [Int64.lt_iff_toInt_lt] at short
    refine ⟨increased.trans_lt short, ?_⟩
    split_ifs
    · omega
    · omega
  · rw [if_neg short] at ran
    cases ran
    rw [Int64.lt_iff_toInt_lt, not_lt] at short
    have covers :
        (feeBySize (serializeSize signed) wallet.nTransactionFee).toInt ≤
            changed.2.toInt ∧ nMinFee.toInt ≤ changed.2.toInt := by
      split_ifs at short with less
      · rw [Int64.lt_iff_toInt_lt] at less
        omega
      · rw [Int64.lt_iff_toInt_lt] at less
        omega
    refine
      { coins := selected.isExact.subset
        inputs := ?_
        nValueIn := selected.isExact.sum
        outputs := ?_
        nFeeRet := ?_
        nonNegative := by
          have fee := bounds.nonNegative
          dsimp only
          omega
        nPayFee := Int64.le_iff_toInt_le.mpr covers.1
        nMinFee :=
          ⟨nMinFee, llLottoFee, isMinFee, isLottoFee,
            Int64.le_iff_toInt_le.mpr includes,
            Int64.le_iff_toInt_le.mpr covers.2⟩ }
    · rw [sameIn, List.map_map]
      rfl
    · rw [sameOut]
      exact outputs
    · rw [sameOut]
      exact balance

/-! ## The lottery-fee test of the memory pool -/

/-- The coins of the wallet are outputs of the view. -/
def Holds (wallet : CWallet) (view : CCoinsView) : Prop :=
  ∀ output ∈ wallet.vCoins, ∀ txin : CTxIn,
    txin.prevout = wallet.prevout output.coin.key →
      txin.prevout.isNull = false ∧
        ∃ txout, view.outputFor? txin = some txout ∧
          txout.nValue = output.nValue

theorem getValueIn_loop
    {view : CCoinsView} {vin : List CTxIn} {coins : List Coin} {nResult : Int64}
    (paid :
      List.Forall₂
        (fun txin coin => ∃ txout, view.outputFor? txin = some txout ∧
          txout.nValue = coin.nValue) vin coins)
    (nonNegative : NonNegative coins) (start : 0 ≤ nResult.toInt)
    (fits : nResult.toInt + total coins < 2 ^ 63) :
    ∃ nValueIn,
      vin.foldlM
          (fun nResult txin => do
            let txout ← view.getOutputFor txin
            pure (nResult + txout.nValue)) nResult = .ok nValueIn ∧
        nValueIn.toInt = nResult.toInt + total coins := by
  induction paid generalizing nResult with
  | nil => exact ⟨nResult, rfl, by simp [total]⟩
  | @cons txin coin vin coins found _ inductionHypothesis =>
      rcases found with ⟨txout, isOutput, value⟩
      rw [total_cons] at fits
      have first := nonNegative coin List.mem_cons_self
      have later : NonNegative coins := fun other member =>
        nonNegative other (List.mem_cons_of_mem _ member)
      have rest := total_nonneg later
      have added : (nResult + txout.nValue).toInt =
          nResult.toInt + coin.nValue.toInt := by
        rw [value]
        exact toInt_add_of_bounds (by omega) (by omega)
      rcases inductionHypothesis later
          (by omega : 0 ≤ (nResult + txout.nValue).toInt) (by omega) with
        ⟨nValueIn, ran, sum⟩
      refine ⟨nValueIn, ?_, ?_⟩
      · rw [List.foldlM_cons, CCoinsView.getOutputFor, isOutput]
        exact ran
      · rw [sum, added, total_cons, Int.add_assoc]

theorem moneyRange_of_bounds
    {amount : Int64} (nonNegative : 0 ≤ amount.toInt)
    (money : amount.toInt ≤ MAX_MONEY.toInt) : moneyRange amount = true :=
  decide_eq_true
    ⟨Int64.le_iff_toInt_le.mpr nonNegative, Int64.le_iff_toInt_le.mpr money⟩

theorem totalOut_nonneg
    (nonNegative : ∀ txout ∈ vout, 0 ≤ txout.nValue.toInt) :
    0 ≤ totalOut vout := by
  refine List.sum_nonneg ?_
  intro value member
  rcases List.mem_map.mp member with ⟨txout, isOutput, rfl⟩
  exact nonNegative txout isOutput

theorem getValueOut_loop
    {nValueOut : Int64} (nonNegative : ∀ txout ∈ vout, 0 ≤ txout.nValue.toInt)
    (start : 0 ≤ nValueOut.toInt)
    (money : nValueOut.toInt + totalOut vout ≤ MAX_MONEY.toInt) :
    ∃ result : Int64,
      vout.foldlM
          (fun nValueOut txout =>
            if moneyRange txout.nValue && moneyRange (nValueOut + txout.nValue)
            then (pure (nValueOut + txout.nValue) : Except Fault Int64)
            else throw .exception) nValueOut = .ok result ∧
        result.toInt = nValueOut.toInt + totalOut vout := by
  induction vout generalizing nValueOut with
  | nil => exact ⟨nValueOut, rfl, by simp [totalOut]⟩
  | cons txout vout inductionHypothesis =>
      have limit : MAX_MONEY.toInt = 5200000000000000 := by decide
      rw [totalOut_cons] at money
      have first := nonNegative txout List.mem_cons_self
      have later : ∀ other ∈ vout, 0 ≤ other.nValue.toInt := fun other member =>
        nonNegative other (List.mem_cons_of_mem _ member)
      have rest := totalOut_nonneg later
      have added : (nValueOut + txout.nValue).toInt =
          nValueOut.toInt + txout.nValue.toInt :=
        toInt_add_of_bounds (by omega) (by omega)
      rcases inductionHypothesis later
          (by omega : 0 ≤ (nValueOut + txout.nValue).toInt) (by omega) with
        ⟨result, ran, sum⟩
      refine ⟨result, ?_, ?_⟩
      · rw [List.foldlM_cons, moneyRange_of_bounds first (by omega),
          moneyRange_of_bounds (by omega) (by omega)]
        exact ran
      · rw [sum, added, totalOut_cons, Int.add_assoc]

theorem coinKeys_perm
    (funded : Funded wallet) {setCoins : Finset CoinKey}
    (subset :
      ∀ key ∈ setCoins, key ∈ (wallet.vCoins.map COutput.coin).map Coin.key) :
    (coinKeys setCoins).Perm
      (((wallet.vCoins.map COutput.coin).filter fun coin =>
        coin.key ∈ setCoins).map Coin.key) := by
  have once : (coinKeys setCoins).Nodup :=
    (Finset.sort_nodup _ _).map ofLex.injective
  refine (List.perm_ext_iff_of_nodup once
    ((List.filter_sublist.map _).nodup funded.keys)).mpr ?_
  intro key
  have member : key ∈ coinKeys setCoins ↔ key ∈ setCoins := by
    rcases key with ⟨address, i⟩
    simp [coinKeys]
  rw [member, List.mem_map]
  constructor
  · intro isCoin
    rcases List.mem_map.mp (subset key isCoin) with ⟨coin, available, rfl⟩
    exact ⟨coin, List.mem_filter.mpr ⟨available, decide_eq_true isCoin⟩, rfl⟩
  · rintro ⟨coin, available, rfl⟩
    exact of_decide_eq_true (List.mem_filter.mp available).2

theorem regular_of_balanced
    {view : CCoinsView} {fAllowFree : Bool} {created : Created}
    (holds : Holds wallet view)
    (balanced : Balanced wallet vecSend fAllowFree created) :
    created.wtxNew.isCoinBase = false := by
  rw [CTransaction.isCoinBase]
  split
  next txin isInput =>
    have spends : txin.prevout ∈ created.wtxNew.vin.map CTxIn.prevout := by
      rw [isInput]
      exact List.mem_singleton_self _
    rw [balanced.inputs] at spends
    rcases List.mem_map.mp spends with ⟨key, isKey, prevout⟩
    have selected : key ∈ created.setCoins := by
      rcases key with ⟨address, i⟩
      simpa [coinKeys] using isKey
    rcases List.mem_map.mp (balanced.coins key selected) with ⟨_, isCoin, rfl⟩
    rcases List.mem_map.mp isCoin with ⟨output, isOutput, rfl⟩
    exact (holds output isOutput txin prevout.symm).1
  · rfl

/-- The inputs of a transaction that balances are worth `nValueIn`. -/
theorem getValueIn_of_balanced
    {view : CCoinsView} {fAllowFree : Bool} {created : Created}
    (funded : Funded wallet) (holds : Holds wallet view)
    (balanced : Balanced wallet vecSend fAllowFree created) :
    view.getValueIn created.wtxNew = .ok created.nValueIn := by
  have limit : MAX_MONEY.toInt = 5200000000000000 := by decide
  have selected : NonNegative ((wallet.vCoins.map COutput.coin).filter fun coin =>
      coin.key ∈ created.setCoins) := fun coin member =>
    funded.coins coin (List.mem_of_mem_filter member)
  have money := (total_le_of_sublist funded.coins
    (List.filter_sublist (p := fun coin => coin.key ∈ created.setCoins))).trans
      funded.money
  have worth :
      List.Forall₂
        (fun prevout coin => ∀ txin : CTxIn, txin.prevout = prevout →
          ∃ txout, view.outputFor? txin = some txout ∧
            txout.nValue = coin.nValue)
        ((((wallet.vCoins.map COutput.coin).filter fun coin =>
          coin.key ∈ created.setCoins).map Coin.key).map wallet.prevout)
        ((wallet.vCoins.map COutput.coin).filter fun coin =>
          coin.key ∈ created.setCoins) := by
    rw [List.forall₂_map_left_iff, List.forall₂_map_left_iff, List.forall₂_same]
    intro coin member txin spends
    rcases List.mem_map.mp (List.mem_of_mem_filter member) with
      ⟨output, isOutput, rfl⟩
    exact (holds output isOutput txin spends).2
  rcases List.perm_comp_forall₂
      ((coinKeys_perm funded balanced.coins).map wallet.prevout) worth with
    ⟨ordered, paid, same⟩
  rw [← balanced.inputs, List.forall₂_map_left_iff] at paid
  have sum := total_perm same
  rcases getValueIn_loop
      (paid.imp fun txin coin isWorth => isWorth txin rfl)
      (fun coin member => selected coin (same.mem_iff.mp member))
      (le_refl (0 : Int64).toInt) (by rw [sum, Int64.toInt_zero]; omega) with
    ⟨nValueIn, ran, value⟩
  have exactly : nValueIn = created.nValueIn := by
    rw [← Int64.toInt_inj, value, balanced.nValueIn, sum]
    exact Int.zero_add _
  rw [CCoinsView.getValueIn, regular_of_balanced holds balanced, ← exactly]
  exact ran

/-- Payments and change are not negative. -/
theorem nonNegative_withChange
    {nMinRelayTxFee : Int64}
    (payments : ∀ s ∈ vecSend, 0 ≤ s.2.toInt)
    (changes : WithChange nMinRelayTxFee (vecSend.map payeeOutput) vout) :
    ∀ txout ∈ vout, 0 ≤ txout.nValue.toInt := by
  have paid : ∀ txout ∈ vecSend.map payeeOutput, 0 ≤ txout.nValue.toInt := by
    intro txout member
    rcases List.mem_map.mp member with ⟨s, isPayment, rfl⟩
    exact payments s isPayment
  rcases changes with rfl | ⟨position, change, inside, rfl, positive, -⟩
  · exact paid
  · intro txout member
    rcases List.mem_cons.mp ((insertIdx_perm inside change).mem_iff.mp member) with
      rfl | isPayment
    · exact (Int64.lt_iff_toInt_lt.mp positive).le
    · exact paid txout isPayment

/-- The test of the lottery fee in the memory pool holds. -/
theorem keepsRules_of_balanced
    {view : CCoinsView} {node : Node} {fAllowFree : Bool} {created : Created}
    (funded : Funded wallet) (holds : Holds wallet view)
    (payments : ∀ s ∈ vecSend, 0 ≤ s.2.toInt)
    (network : node.network = wallet.network)
    (height : node.chainActive.height = wallet.tipHeight)
    (balanced : Balanced wallet vecSend fAllowFree created)
    (valid :
      isTransactionValid wallet.network wallet.tipHeight created.wtxNew =
        .ok true) :
    KeepsRules node view created.wtxNew := by
  rcases balanced.nMinFee with
    ⟨nMinFee, llLottoFee, -, isLottoFee, includes, covers⟩
  have balance := balanced.nFeeRet
  have fee := balanced.nonNegative
  have limit : MAX_MONEY.toInt = 5200000000000000 := by decide
  have money := (total_le_of_sublist funded.coins
    (List.filter_sublist (p := fun coin => coin.key ∈ created.setCoins))).trans
      funded.money
  rw [← balanced.nValueIn] at money
  have outputs := nonNegative_withChange payments balanced.outputs
  have spent := totalOut_nonneg outputs
  rcases getValueOut_loop outputs (le_refl (0 : Int64).toInt)
      (by rw [Int64.toInt_zero]; omega) with ⟨nValueOut, ran, value⟩
  rw [Int64.toInt_zero, Int.zero_add] at value
  rw [← network, ← height] at valid isLottoFee
  refine ⟨valid, created.nValueIn, nValueOut, llLottoFee,
    getValueIn_of_balanced funded holds balanced, ran, isLottoFee, ?_⟩
  have difference : (created.nValueIn - nValueOut).toInt =
      created.nValueIn.toInt - nValueOut.toInt :=
    toInt_sub_of_bounds (by omega) (by omega)
  rw [Int64.le_iff_toInt_le] at includes covers ⊢
  omega

/-! ## The loop ends -/

theorem createPass_ends
    {run : Nat → Oracles} {state : Creation} (funded : Funded wallet)
    (sums : Sums vecSend nValue) (bounds : FeeBounds wallet state.nFeeRet) :
    ∃ next done,
      createPass wallet run wtxNew vecSend nValue state = some (next, done) ∧
      (done = false → FeeBounds wallet next.nFeeRet ∧
        (2 ^ 62 - next.nFeeRet.toInt).toNat <
          (2 ^ 62 - state.nFeeRet.toInt).toNat) ∧
      (done = true → ∃ result, next.result = some result ∧
        ∀ created, result = .ok created →
          ∃ nPass, Balanced wallet vecSend (run nPass).fAllowFree created) := by
  rw [createPass]
  cases ran : attempt wallet (run state.nPass) wtxNew vecSend nValue
      state.nFeeRet with
  | error stop =>
      refine ⟨_, true, rfl, nofun, fun _ => ⟨_, rfl, ?_⟩⟩
      intro created same
      cases same
  | ok result =>
      have spec := attempt_eq_ok funded sums bounds ran
      cases result with
      | again next =>
          refine ⟨_, false, rfl, fun _ => ⟨?_, ?_⟩, nofun⟩
          · exact ⟨bounds.nonNegative, bounds.atLeast.trans spec.1.le, spec.2⟩
          · dsimp only at spec ⊢
            omega
      | created result =>
          refine ⟨_, true, rfl, nofun, fun _ => ⟨_, rfl, ?_⟩⟩
          intro created same
          cases same
          exact ⟨state.nPass, spec⟩

theorem createLoop_ends
    (wtxNew : CTransaction) (run : Nat → Oracles) (funded : Funded wallet)
    (sums : Sums vecSend nValue)
    (bounds : FeeBounds wallet wallet.nTransactionFee) :
    ∃ result, createLoop wallet run wtxNew vecSend nValue = some result ∧
      ∀ fValid created, result = .ok (fValid, created) →
        (∃ nPass, Balanced wallet vecSend (run nPass).fAllowFree created) ∧
        isTransactionValid wallet.network wallet.tipHeight created.wtxNew =
          .ok fValid := by
  have nonNegative := bounds.nonNegative
  have enough : (2 ^ 62 - wallet.nTransactionFee.toInt).toNat < 2 ^ 63 := by
    omega
  have ends :
      ∃ final,
        Loop.run (createPass wallet run wtxNew vecSend nValue) (2 ^ 63)
          ⟨wallet.nTransactionFee, 0, none⟩ = some final ∧
        ∃ result, final.result = some result ∧
          ∀ created, result = .ok created →
            ∃ nPass, Balanced wallet vecSend (run nPass).fAllowFree created :=
    Loop.run_reaches (fun state => FeeBounds wallet state.nFeeRet)
      (fun state => (2 ^ 62 - state.nFeeRet.toInt).toNat)
      (fun _ bounds => createPass_ends funded sums bounds) bounds enough
  rcases ends with ⟨final, finished, result, isResult, balanced⟩
  rw [createLoop, finished, Option.bind_eq_bind, Option.bind_some, isResult,
    Option.bind_eq_bind, Option.bind_some]
  refine ⟨_, rfl, ?_⟩
  intro fValid created same
  rcases bind_eq_ok.mp same with ⟨made, isMade, same⟩
  rcases bind_eq_ok.mp same with ⟨_, isValid, same⟩
  cases same
  rw [orStop_eq_ok] at isValid
  exact ⟨balanced _ isMade, isValid⟩

/--
`CreateTransaction` ends.  A transaction that it returns balances, covers the
fees, and keeps the betting rules of the memory pool.
-/
theorem createTransaction_balanced
    (funded : Funded wallet) (payable : Payable vecSend)
    (nonNegative : 0 ≤ wallet.nTransactionFee.toInt)
    (bounded : wallet.nTransactionFee.toInt ≤ 2 ^ 62)
    (run : Nat → Oracles) (wtxNew : CTransaction) :
    ∃ result, createTransaction wallet run wtxNew vecSend = some result ∧
      ∀ created, result = .ok (true, created) →
        (∃ nPass, Balanced wallet vecSend (run nPass).fAllowFree created) ∧
        isTransactionValid wallet.network wallet.tipHeight created.wtxNew =
          .ok true ∧
        ∀ (node : Node) (view : CCoinsView), node.network = wallet.network →
          node.chainActive.height = wallet.tipHeight → Holds wallet view →
          (∀ s ∈ vecSend, 0 ≤ s.2.toInt) →
            KeepsRules node view created.wtxNew := by
  rw [createTransaction]
  split
  next nValue _ added =>
    have sums : Sums vecSend nValue := by
      have limit : MAX_MONEY.toInt = 5200000000000000 := by decide
      have few := payable
      rw [Payable] at few
      rcases sumPayments_eq_some added (by rw [Int64.toInt_zero]; omega) with
        ⟨sum, isSum⟩
      rw [Int64.toInt_zero, Int.zero_add] at sum
      exact ⟨payable, sum, isSum⟩
    rcases createLoop_ends wtxNew run funded sums
        ⟨nonNegative, le_refl _, bounded⟩ with ⟨result, ran, spec⟩
    refine ⟨result, ran, ?_⟩
    intro created same
    rcases spec true created same with ⟨⟨nPass, balanced⟩, valid⟩
    refine ⟨⟨nPass, balanced⟩, valid, ?_⟩
    intro node view network height holds payments
    exact keepsRules_of_balanced funded holds payments network height balanced
      valid
  · refine ⟨_, rfl, ?_⟩
    intro created same
    cases same

/-- A wallet with one output of ours. -/
def ownWallet : CWallet where
  network := .main
  tipHeight := 100
  nTransactionFee := 0
  rates := ⟨10000, 1000⟩
  vCoins := [ownOutput 1 1000000000]
  hasSelected := false
  bSpendZeroConfChange := true
  getHash := fun address => BitVec.ofNat 256 address

def plainOracles : Oracles where
  choices := fun _ => plainChoices
  scriptChange := some []
  getRandInt := fun _ => 0
  getRandInt_lt := fun _ positive => positive
  signSignature := fun _ _ => some []
  fAllowFree := false

def ownCreated : Created where
  wtxNew := ⟨1, [⟨⟨1, 0⟩, [], 0xffffffff⟩], [⟨899990000, []⟩, ⟨100000000, []⟩], 0⟩
  nFeeRet := 10000
  setCoins := {(1, 0)}
  nValueIn := 1000000000

theorem createTransaction_ownWallet :
    createTransaction ownWallet (fun _ => plainOracles) ⟨1, [], [], 0⟩
      [([], 100000000)] = some (.ok (true, ownCreated)) := by
  decide +kernel

/-- The second pass pays the fee that the first pass has found. -/
theorem createTransaction_balanced_own :
    Balanced ownWallet [([], 100000000)] false ownCreated ∧
      isTransactionValid .main 100 ownCreated.wtxNew = .ok true := by
  rcases createTransaction_balanced
      (⟨by decide, by decide, by decide⟩ : Funded ownWallet)
      (by unfold Payable; decide : Payable [([], 100000000)]) (by decide) (by decide)
      (fun _ => plainOracles) ⟨1, [], [], 0⟩ with ⟨result, ran, spec⟩
  rw [createTransaction_ownWallet] at ran
  cases ran
  rcases spec ownCreated rfl with ⟨⟨_, balanced⟩, valid, -⟩
  exact ⟨balanced, valid⟩

end DSValue.Wallet.CreateTransaction

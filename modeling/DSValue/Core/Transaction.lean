import DSValue.Core.Header
import DSValue.Script.Scan
import Mathlib.Data.List.DropRight

/-!
# Transactions, blocks and the coins they leave

`CCoins` is what remains of a transaction in the set of unspent outputs.  It
is built from the outputs of the transaction with the unspendable ones set to
null, and null outputs at the end are dropped.  A null output is recognised
by its value `-1`.
-/

namespace DSValue.Core.Transaction

open DSValue.Core.Header
open DSValue.Core.Serialize
open DSValue.Script.Scan

/-- `COIN`. -/
def COIN : Int64 := 100000000

/-- `MAX_MONEY`. -/
def MAX_MONEY : Int64 := 52000000 * COIN

def moneyRange (nValue : Int64) : Bool :=
  0 ≤ nValue ∧ nValue ≤ MAX_MONEY

/-- `COutPoint`. -/
structure COutPoint where
  hash : Uint256
  n : UInt32
deriving DecidableEq

def COutPoint.isNull (prevout : COutPoint) : Bool :=
  prevout.hash = 0 ∧ prevout.n = -1

/-- `CTxIn`. -/
structure CTxIn where
  prevout : COutPoint
  scriptSig : CScript
  nSequence : UInt32
deriving DecidableEq

/-- `CTxOut`. -/
structure CTxOut where
  nValue : Int64
  scriptPubKey : CScript
deriving DecidableEq

/-- The output `CTxOut::SetNull` leaves. -/
def CTxOut.null : CTxOut :=
  ⟨-1, []⟩

def CTxOut.isNull (txout : CTxOut) : Bool :=
  txout.nValue = -1

/-- `CTransaction`. -/
structure CTransaction where
  nVersion : Int32
  vin : List CTxIn
  vout : List CTxOut
  nLockTime : UInt32
deriving DecidableEq

def CTransaction.isCoinBase (tx : CTransaction) : Bool :=
  match tx.vin with
  | [txin] => txin.prevout.isNull
  | _ => false

/-- `CBlock`. -/
structure CBlock extends CBlockHeader where
  vtx : List CTransaction
deriving DecidableEq

/-! ## Serialization -/

def writeScript (script : CScript) : List UInt8 :=
  writeCompactSize (UInt64.ofNat script.length) ++ script

def CTxIn.serialize (txin : CTxIn) : List UInt8 :=
  writeUint256 txin.prevout.hash ++ writeUInt32 txin.prevout.n ++
    writeScript txin.scriptSig ++ writeUInt32 txin.nSequence

def CTxOut.serialize (txout : CTxOut) : List UInt8 :=
  writeInt64 txout.nValue ++ writeScript txout.scriptPubKey

def CTransaction.serialize (tx : CTransaction) : List UInt8 :=
  writeInt32 tx.nVersion ++ writeVector CTxIn.serialize tx.vin ++
    writeVector CTxOut.serialize tx.vout ++ writeUInt32 tx.nLockTime

def CBlock.serialize (block : CBlock) : List UInt8 :=
  block.toCBlockHeader.serialize ++
    writeVector CTransaction.serialize block.vtx

/-! ## Coins -/

/-- `CCoins`. -/
structure CCoins where
  fCoinBase : Bool
  vout : List CTxOut
  nHeight : Int32
  nVersion : Int32
deriving DecidableEq

/-- `CCoins::Cleanup`: drop null outputs at the end. -/
def CCoins.cleanup (coins : CCoins) : CCoins :=
  { coins with vout := coins.vout.rdropWhile CTxOut.isNull }

/-- `CCoins::ClearUnspendable`. -/
def CCoins.clearUnspendable (coins : CCoins) : CCoins :=
  CCoins.cleanup
    { coins with
      vout := coins.vout.map (fun txout =>
        if isUnspendable txout.scriptPubKey then CTxOut.null else txout) }

/-- The constructor `CCoins(tx, nHeight)`. -/
def CCoins.ofTransaction (tx : CTransaction) (nHeight : Int32) : CCoins :=
  CCoins.clearUnspendable
    { fCoinBase := tx.isCoinBase
      vout := tx.vout
      nHeight := nHeight
      nVersion := tx.nVersion }

/-- `CCoins::IsPruned`. -/
def CCoins.isPruned (coins : CCoins) : Bool :=
  coins.vout.all CTxOut.isNull

/-- `CCoins::IsAvailable`. -/
def CCoins.isAvailable (coins : CCoins) (nPos : Nat) : Bool :=
  match coins.vout[nPos]? with
  | none => false
  | some txout => !txout.isNull

/-- `CCoins::Spend`. -/
def CCoins.spend (coins : CCoins) (nPos : Nat) : Option CCoins :=
  match coins.vout[nPos]? with
  | none => none
  | some txout =>
      if txout.isNull then none
      else some (CCoins.cleanup
        { coins with vout := coins.vout.set nPos CTxOut.null })

theorem rdropWhile_available
    (vout : List CTxOut) (nPos : Nat) {txout : CTxOut}
    (nonNull : txout.isNull = false) :
    (vout.rdropWhile CTxOut.isNull)[nPos]? = some txout ↔
      vout[nPos]? = some txout := by
  induction vout using List.reverseRecOn with
  | nil => simp
  | append_singleton front last inductionHypothesis =>
      by_cases lastNull : last.isNull
      · rw [List.rdropWhile_concat_pos _ _ _ lastNull, inductionHypothesis,
          List.getElem?_append]
        split_ifs with inFront
        · rfl
        · rw [List.getElem?_eq_none (by omega)]
          constructor
          · simp
          · intro atEnd
            have isLast := List.mem_of_getElem? atEnd
            rw [List.mem_singleton] at isLast
            rw [isLast, lastNull] at nonNull
            contradiction
      · rw [List.rdropWhile_concat_neg _ _ _ lastNull]

/-- Null outputs at the end are dropped. -/
theorem rdropWhile_append_null (vout : List CTxOut) (padding : Nat) :
    (vout ++ List.replicate padding CTxOut.null).rdropWhile CTxOut.isNull =
      vout.rdropWhile CTxOut.isNull := by
  induction padding with
  | zero => rw [List.replicate_zero, List.append_nil]
  | succ padding inductionHypothesis =>
      rw [List.replicate_succ', ← List.append_assoc,
        List.rdropWhile_concat_pos _ _ _ rfl, inductionHypothesis]

theorem rdropWhile_of_getLast?
    {vout : List CTxOut} {last : CTxOut} (atEnd : vout.getLast? = some last)
    (nonNull : last.isNull = false) :
    vout.rdropWhile CTxOut.isNull = vout := by
  rw [List.rdropWhile_eq_self_iff]
  intro nonempty
  rw [List.getLast?_eq_some_getLast nonempty, Option.some.injEq] at atEnd
  rw [atEnd, nonNull]
  exact Bool.false_ne_true

/--
A position of a transaction is available in its coins exactly when the output
there is neither unspendable nor of value `-1`.
-/
theorem ofTransaction_isAvailable
    (tx : CTransaction) (nHeight : Int32) (nPos : Nat) :
    (CCoins.ofTransaction tx nHeight).isAvailable nPos = true ↔
      ∃ txout, tx.vout[nPos]? = some txout ∧
        isUnspendable txout.scriptPubKey = false ∧ txout.isNull = false := by
  have available :
      ∀ (coins : CCoins),
        coins.isAvailable nPos = true ↔
          ∃ txout, coins.vout[nPos]? = some txout ∧
            txout.isNull = false := by
    intro coins
    rw [CCoins.isAvailable]
    cases coins.vout[nPos]? <;> simp
  rw [available]
  constructor
  · rintro ⟨txout, atPosition, nonNull⟩
    rw [CCoins.ofTransaction, CCoins.clearUnspendable, CCoins.cleanup,
      rdropWhile_available _ _ nonNull, List.getElem?_map,
      Option.map_eq_some_iff] at atPosition
    rcases atPosition with ⟨original, atOriginal, cleared⟩
    split_ifs at cleared with unspendable
    · rw [← cleared] at nonNull
      exact absurd nonNull (by decide)
    · rw [cleared] at atOriginal unspendable
      exact ⟨txout, atOriginal, by simpa using unspendable, nonNull⟩
  · rintro ⟨txout, atOriginal, spendable, nonNull⟩
    refine ⟨txout, ?_, nonNull⟩
    rw [CCoins.ofTransaction, CCoins.clearUnspendable, CCoins.cleanup,
      rdropWhile_available _ _ nonNull, List.getElem?_map, atOriginal]
    simp [spendable]

end DSValue.Core.Transaction

import DSValue.Consensus.TxOut
import DSValue.Script.PushCodec

/-!
# The two scans for a bet

`CTxOut::GetLottoTxOutType` and `CScript::GetBetData` walk the operations of a
script in loops of their own, each with its count of operations and its early
exits.  The first one checks the operand behind the first `OP_LOTTO`, the
second one hands it out; they see the same vector.
-/

namespace DSValue.Consensus.BetScan

open DSValue.Lib
open DSValue.Core.Transaction
open DSValue.Lotto.Bet
open DSValue.Script.PushCodec
open DSValue.Script.Scan (CScript ParsedOp Network isSendPoolAdress OP_LOTTO OP_16
  LottoScan countOp tooManyOps scanLottoLoop scanLotto_bound)
open DSValue.Consensus.TxOut (TransactionState)

/-! ## The loops -/

/-- The loop of `CScript::GetBetData`. -/
def betDataLoop (pc : CScript) (nOpCount : Nat) : Option (List UInt8) :=
  if pc = [] then none
  else
    match _parsed : getOp2 pc with
    | none => none
    | some op =>
        if tooManyOps op.opcode nOpCount then none
        else if op.opcode = OP_LOTTO then
          match getOp2 op.pc with
          | none => none
          | some operand => some operand.vchRet
        else betDataLoop op.pc (countOp op.opcode nOpCount)
termination_by pc.length
decreasing_by exact getOp2_length _parsed

/-- `CScript::GetBetData`. -/
def getBetData (script : CScript) : Option (List UInt8) :=
  betDataLoop script 0

/--
What `GetLottoTxOutType` returns and leaves in its reference, and the vector
that it has applied `CLotto::IsValid` to.
-/
structure TxOutType where
  fRet : Bool
  txType : TransactionState
  checked : Option (List UInt8)
deriving DecidableEq

/-- The loop of `CTxOut::GetLottoTxOutType`. -/
def txOutTypeLoop (tipHeight : Nat) (nValue : Int64) (txType : TransactionState)
    (pc : CScript) (nOpCount : Nat) : Except Fault TxOutType :=
  if pc = [] then pure ⟨true, txType, none⟩
  else
    match _parsed : getOp2 pc with
    | none => pure ⟨false, txType, none⟩
    | some op =>
        if tooManyOps op.opcode nOpCount then pure ⟨false, txType, none⟩
        else if op.opcode = OP_LOTTO then
          match getOp2 op.pc with
          | none => pure ⟨false, txType, none⟩
          | some operand => do
              let valid ← isValid operand.vchRet nValue
              if !valid && 4380 < tipHeight then
                pure ⟨true, .invalidLotto, some operand.vchRet⟩
              else pure ⟨true, .validLotto, some operand.vchRet⟩
        else txOutTypeLoop tipHeight nValue txType op.pc
          (countOp op.opcode nOpCount)
termination_by pc.length
decreasing_by exact getOp2_length _parsed

/-- `CTxOut::GetLottoTxOutType`. -/
def getLottoTxOutType (network : Network) (tipHeight : Nat) (txout : CTxOut)
    (txType : TransactionState) : Except Fault TxOutType :=
  if !isSendPoolAdress network txout.scriptPubKey then
    pure ⟨true, .normal, none⟩
  else txOutTypeLoop tipHeight txout.nValue txType txout.scriptPubKey 0

/-! ## Both scans -/

variable {tipHeight : Nat} {nValue : Int64} {txType : TransactionState}
  {pc : CScript} {nOpCount : Nat} {result : TxOutType} {op : ParsedOp}

theorem betDataLoop_unread (nonempty : pc ≠ []) (unread : getOp2 pc = none) :
    betDataLoop pc nOpCount = none := by
  rw [betDataLoop, if_neg nonempty]
  split
  · rfl
  · simp_all

theorem betDataLoop_read (nonempty : pc ≠ []) (read : getOp2 pc = some op) :
    betDataLoop pc nOpCount =
      if tooManyOps op.opcode nOpCount then none
      else if op.opcode = OP_LOTTO then (getOp2 op.pc).map ParsedOp.vchRet
      else betDataLoop op.pc (countOp op.opcode nOpCount) := by
  rw [betDataLoop, if_neg nonempty]
  split
  next unread =>
    rw [read] at unread
    cases unread
  next other found =>
    rw [read] at found
    cases found
    cases getOp2 op.pc <;> rfl

/-- The loops stop at the same operation, with the same operand. -/
theorem txOutTypeLoop_checked
    (scanned : txOutTypeLoop tipHeight nValue txType pc nOpCount = .ok result) :
    result.checked = betDataLoop pc nOpCount ∧
      (result.checked = none → result.txType = txType) := by
  fun_induction txOutTypeLoop tipHeight nValue txType pc nOpCount with
  | case1 nOpCount =>
      cases scanned
      exact ⟨by rw [betDataLoop, if_pos rfl], fun _ => rfl⟩
  | case2 pc nOpCount nonempty unread =>
      cases scanned
      exact ⟨(betDataLoop_unread nonempty unread).symm, fun _ => rfl⟩
  | case3 pc nOpCount nonempty op read many =>
      cases scanned
      exact ⟨by rw [betDataLoop_read nonempty read, if_pos many], fun _ => rfl⟩
  | case4 pc nOpCount nonempty op read few isLotto noOperand =>
      cases scanned
      refine ⟨?_, fun _ => rfl⟩
      rw [betDataLoop_read nonempty read, if_neg few, if_pos isLotto, noOperand]
      rfl
  | case5 pc nOpCount nonempty op read few isLotto operand found =>
      have taken : betDataLoop pc nOpCount = some operand.vchRet := by
        rw [betDataLoop_read nonempty read, if_neg few, if_pos isLotto, found]
        rfl
      rw [taken]
      rcases bind_eq_ok.mp scanned with ⟨valid, -, decided⟩
      split_ifs at decided <;> cases decided <;> exact ⟨rfl, nofun⟩
  | case6 pc nOpCount nonempty op read few other inductionHypothesis =>
      rw [betDataLoop_read nonempty read, if_neg few, if_neg other]
      exact inductionHypothesis scanned

/-! ## The scan that both share -/

theorem scanLottoLoop_read
    (nonempty : pc ≠ []) (read : Script.Scan.getOp2 pc = some op) :
    scanLottoLoop pc.length pc nOpCount =
      if tooManyOps op.opcode nOpCount then .unreadable
      else if op.opcode = OP_LOTTO then
        match Script.Scan.getOp2 op.pc with
        | none => .unreadable
        | some operand => .found operand.vchRet
      else scanLottoLoop op.pc.length op.pc (countOp op.opcode nOpCount) := by
  cases pc with
  | nil => exact absurd rfl nonempty
  | cons byte rest =>
      have shorter := Script.Scan.getOp2_length read
      rw [List.length_cons] at shorter
      rw [List.length_cons, scanLottoLoop, read]
      dsimp only
      refine if_congr Iff.rfl rfl (if_congr Iff.rfl rfl ?_)
      exact scanLotto_bound rest.length op.pc _ (by omega)

/-- What `GetBetData` makes of the common scan. -/
def betDataOf : LottoScan → Option (List UInt8)
  | .found vchPushValue => some vchPushValue
  | _ => none

/-- What `GetLottoTxOutType` makes of the common scan. -/
def txOutTypeOf (tipHeight : Nat) (nValue : Int64) (txType : TransactionState) :
    LottoScan → Except Fault TxOutType
  | .unreadable => pure ⟨false, txType, none⟩
  | .absent => pure ⟨true, txType, none⟩
  | .found vchPushValue => do
      let valid ← isValid vchPushValue nValue
      if !valid && 4380 < tipHeight then
        pure ⟨true, .invalidLotto, some vchPushValue⟩
      else pure ⟨true, .validLotto, some vchPushValue⟩

/-- The loops over a script under four gigabytes do the common scan. -/
theorem loops_eq_scan (short : pc.length < 2 ^ 32) :
    betDataLoop pc nOpCount =
        betDataOf (scanLottoLoop pc.length pc nOpCount) ∧
      txOutTypeLoop tipHeight nValue txType pc nOpCount =
        txOutTypeOf tipHeight nValue txType
          (scanLottoLoop pc.length pc nOpCount) := by
  have same := getOp2_eq short
  fun_induction txOutTypeLoop tipHeight nValue txType pc nOpCount with
  | case1 nOpCount => exact ⟨by rw [betDataLoop, if_pos rfl]; rfl, rfl⟩
  | case2 pc nOpCount nonempty unread =>
      rw [betDataLoop_unread nonempty unread]
      rw [unread] at same
      cases pc with
      | nil => exact absurd rfl nonempty
      | cons byte rest =>
          rw [List.length_cons, scanLottoLoop, ← same]
          exact ⟨rfl, rfl⟩
  | case3 pc nOpCount nonempty op read many =>
      rw [read] at same
      rw [betDataLoop_read nonempty read, if_pos many,
        scanLottoLoop_read nonempty same.symm, if_pos many]
      exact ⟨rfl, rfl⟩
  | case4 pc nOpCount nonempty op read few isLotto noOperand =>
      rw [read] at same
      have shorter := getOp2_length read
      rw [betDataLoop_read nonempty read, if_neg few, if_pos isLotto,
        scanLottoLoop_read nonempty same.symm, if_neg few, if_pos isLotto,
        ← getOp2_eq (by omega), noOperand]
      exact ⟨rfl, rfl⟩
  | case5 pc nOpCount nonempty op read few isLotto operand found =>
      rw [read] at same
      have shorter := getOp2_length read
      rw [betDataLoop_read nonempty read, if_neg few, if_pos isLotto,
        scanLottoLoop_read nonempty same.symm, if_neg few, if_pos isLotto,
        ← getOp2_eq (by omega), found]
      exact ⟨rfl, rfl⟩
  | case6 pc nOpCount nonempty op read few other inductionHypothesis =>
      rw [read] at same
      have shorter := getOp2_length read
      rw [betDataLoop_read nonempty read, if_neg few, if_neg other,
        scanLottoLoop_read nonempty same.symm, if_neg few, if_neg other]
      exact inductionHypothesis (by omega) (getOp2_eq (by omega))

/-- Both functions are those that the rest of the development uses. -/
theorem scans_eq
    (network : Network) (txout : CTxOut)
    (short : txout.scriptPubKey.length < 2 ^ 32) :
    getBetData txout.scriptPubKey =
        Script.Scan.getBetData txout.scriptPubKey ∧
      TxOut.getLottoTxOutType network tipHeight txout txType =
        (getLottoTxOutType network tipHeight txout txType).map
          fun result => (result.fRet, result.txType) := by
  have loops := @loops_eq_scan tipHeight txout.nValue txType
    txout.scriptPubKey 0 short
  refine ⟨loops.1, ?_⟩
  rw [TxOut.getLottoTxOutType, getLottoTxOutType, Script.Scan.scanLotto]
  split_ifs with elsewhere
  · rfl
  · rw [loops.2]
    cases scanLottoLoop txout.scriptPubKey.length txout.scriptPubKey 0 with
    | unreadable => rfl
    | absent => rfl
    | found vchPushValue =>
        rw [txOutTypeOf]
        dsimp only
        cases isValid vchPushValue txout.nValue with
        | error fault => rfl
        | ok valid =>
            show (if _ then _ else _) = Except.map _ (if _ then _ else _)
            split_ifs <;> rfl

/--
A vector that `operator<<` appends is read back in full, and when
`GetLottoTxOutType` leaves the state valid for an `OP_LOTTO`, `GetBetData`
gives the vector that `CLotto::IsValid` was applied to.
-/
theorem push_and_betData :
    (∀ script b, b.length < 2 ^ 32 →
      getOp2 ((push script b).drop script.length) =
        some ⟨pushOpcode b, b, []⟩) ∧
    (∀ network tipHeight txout txType result,
      getLottoTxOutType network tipHeight txout txType = .ok result →
        result.txType = .validLotto →
          (∃ vchPushValue, result.checked = some vchPushValue ∧
            getBetData txout.scriptPubKey = some vchPushValue) ∨
          result.checked = none ∧ txType = .validLotto) := by
  refine ⟨fun _ _ fits => getOp2_push fits, ?_⟩
  intro network tipHeight txout txType result scanned isValidLotto
  rw [getLottoTxOutType] at scanned
  split_ifs at scanned
  · cases scanned
    cases isValidLotto
  · rcases txOutTypeLoop_checked scanned with ⟨same, untouched⟩
    cases checked : result.checked with
    | none =>
        rw [untouched checked] at isValidLotto
        exact Or.inr ⟨rfl, isValidLotto⟩
    | some vchPushValue =>
        exact Or.inl ⟨vchPushValue, rfl, by rw [getBetData, ← same, checked]⟩

end DSValue.Consensus.BetScan

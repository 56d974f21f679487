import DSValue.Consensus.TxOut
import DSValue.Lib.Outcome
import DSValue.Lotto.Tickets

/-!
# Outputs that cannot be classified

`CLotto::IsValid` does not return for bet data with an unknown type byte, and
not for bet data of exactly twenty bytes either, whose numbers are copied
from behind the end.  All other data is accepted or rejected.  An output that
carries such data to the pool stops every loop over the outputs of its
transaction.
-/

namespace DSValue.Consensus.Classification

open DSValue.Lib
open DSValue.Lib.Outcome
open DSValue.Core.Transaction
open DSValue.Lotto.Bet
open DSValue.Lotto.Tickets
open DSValue.Script.Scan
open DSValue.Consensus.TxOut

/-! ## Bet data -/

/-- The first byte, if there is one, is a bet type. -/
def NamesType (data : List UInt8) : Prop :=
  ∀ typeByte ∈ data.head?, typeByte = 0 ∨ typeByte = 1

/-- The bet data that `CLotto::IsValid` decides. -/
def HasVerdict (data : List UInt8) : Prop :=
  NamesType data ∧ data.length ≠ ADRESSLEN

theorem returns_getType_iff (data : List UInt8) :
    Returns (getType data) ↔ NamesType data := by
  cases data with
  | nil => simp [getType, NamesType]
  | cons typeByte rest =>
      rw [getType]
      split_ifs with isSix isDouble
      · simp [NamesType, isSix]
      · simp [NamesType, isDouble]
      · have stuck : ¬ Returns (throw .assertion : Except Fault BetType) :=
          not_returns_error Fault.assertion
        simpa [NamesType, isSix, isDouble] using stuck

theorem returns_ofBetData_iff (data : List UInt8) (nValue : Int64) :
    Returns (CBet.ofBetData data nValue) ↔ HasVerdict data := by
  rw [CBet.ofBetData, returns_bind_iff]
  constructor
  · rintro ⟨type, named, returns⟩
    refine ⟨(returns_getType_iff data).mp ⟨type, named⟩, ?_⟩
    intro exactlyAddress
    rcases returns_bind_iff.mp returns with ⟨address, copied, -⟩
    rw [getAddr, exactlyAddress, if_neg (lt_irrefl _), if_pos rfl] at copied
    contradiction
  · rintro ⟨named, notAddress⟩
    rcases (returns_getType_iff data).mpr named with ⟨type, isType⟩
    refine ⟨type, isType, ?_⟩
    have address : Returns (getAddr data) := by
      rw [getAddr, if_neg notAddress]
      split_ifs
      · exact returns_pure _
      · exact Returns.bind ⟨type, isType⟩ fun _ => returns_pure _
    have numbers : Returns (getSelectV data) := by
      rw [getSelectV, if_neg notAddress]
      split_ifs
      · exact returns_pure _
      · exact Returns.bind ⟨type, isType⟩ fun _ => returns_pure _
    exact address.bind fun _ => numbers.bind fun _ => returns_pure _

/-! ## Counting tickets returns -/

/-- No factorial of a bet makes the division trap. -/
theorem returns_mselectN
    {count taken : Nat} (few : count ≤ 31) (small : taken ≤ 6) :
    Returns (mselectN (Int32.ofNat count) (Int32.ofNat taken)) := by
  have checked :
      ∀ count < 32, ∀ taken < 7,
        (mselectN (Int32.ofNat count) (Int32.ofNat taken)).isOk = true := by
    decide
  have isOk := checked count (by omega) taken (by omega)
  cases run : mselectN (Int32.ofNat count) (Int32.ofNat taken) with
  | error fault =>
      rw [run] at isOk
      contradiction
  | ok total => exact returns_ok total

theorem returns_coversMinBet
    {bet : CBet} (counted : Returns bet.getTotalBer) :
    Returns bet.coversMinBet :=
  counted.bind fun _ => returns_pure _

/-- A check that answers at once does not stop the ones behind it. -/
theorem returns_unless
    {wrong : Prop} [Decidable wrong] {verdict : Bool}
    {rest : Except Fault Bool} (returns : Returns rest) :
    Returns (if wrong then pure verdict else rest) := by
  split_ifs
  · exact returns_pure verdict
  · exact returns

theorem returns_isValid15_6
    {bet : CBet} (type : bet.type = .type15_6) :
    Returns bet.isValid15_6 := by
  rw [CBet.isValid15_6]
  by_cases wrongLength : 15 < bet.vch.length ∨ bet.vch.length < 6
  · rw [if_pos wrongLength]
    exact returns_pure _
  · rw [if_neg wrongLength]
    iterate 4 refine returns_unless ?_
    apply returns_coversMinBet
    rw [CBet.getTotalBer, type]
    exact returns_mselectN (by omega) (show 6 ≤ 6 from le_rfl)

theorem returns_isValidMulity
    {bet : CBet} (type : bet.type = .typeMulilt) :
    Returns bet.isValidMulity := by
  rw [CBet.isValidMulity]
  by_cases wrongLength : bet.vch.length < 7 ∨ 31 < bet.vch.length
  · rw [if_pos wrongLength]
    exact returns_pure _
  rw [if_neg wrongLength]
  rcases flag : bluePart bet.vch with _ | blue
  · exact returns_pure _
  have parts := (parts_of_bluePart flag).1
  have counted : Returns bet.getTotalBer := by
    have length := congrArg List.length parts
    simp only [List.length_append, List.length_cons] at length
    rw [CBet.getTotalBer, type]
    refine Returns.bind
      (returns_mselectN (by omega) (show 5 ≤ 6 by decide)) fun _ => ?_
    rw [flag]
    exact Returns.bind
      (returns_mselectN (by omega) (show 2 ≤ 6 by decide)) fun _ =>
        returns_pure _
  iterate 9 refine returns_unless ?_
  exact returns_coversMinBet counted

/-- `CLotto::IsValid` returns exactly for data with a verdict. -/
theorem returns_isValid_iff (data : List UInt8) (nValue : Int64) :
    Returns (isValid data nValue) ↔ HasVerdict data := by
  rw [isValid, returns_bind_iff, ← returns_ofBetData_iff data nValue]
  constructor
  · rintro ⟨bet, parsed, -⟩
    exact ⟨bet, parsed⟩
  · rintro ⟨bet, parsed⟩
    refine ⟨bet, parsed, ?_⟩
    rw [CBet.isValid]
    cases type : bet.type with
    | type15_6 => exact returns_isValid15_6 type
    | typeMulilt => exact returns_isValidMulity type

/-! ## Outputs -/

/-- The bet data that the output carries to the pool, if any, gets a verdict. -/
def Classifiable (network : Network) (txout : CTxOut) : Prop :=
  isSendPoolAdress network txout.scriptPubKey = true →
    ∀ data, scanLotto txout.scriptPubKey = .found data → HasVerdict data

theorem returns_getLottoTxOutType_iff
    (network : Network) (tipHeight : Nat) (txout : CTxOut)
    (txType : TransactionState) :
    Returns (getLottoTxOutType network tipHeight txout txType) ↔
      Classifiable network txout := by
  rw [getLottoTxOutType, Classifiable]
  by_cases pays : isSendPoolAdress network txout.scriptPubKey = true
  · cases scan : scanLotto txout.scriptPubKey with
    | unreadable => simp [pays]
    | absent => simp [pays]
    | found data =>
        simp only [pays, Bool.not_true, Bool.false_eq_true, if_false,
          forall_const, LottoScan.found.injEq, forall_eq']
        rw [← returns_isValid_iff data txout.nValue, returns_bind_iff]
        constructor
        · rintro ⟨valid, ran, -⟩
          exact ⟨valid, ran⟩
        · rintro ⟨valid, ran⟩
          refine ⟨valid, ran, ?_⟩
          split_ifs
          · exact returns_pure _
          · exact returns_pure _
  · simp [pays]

theorem returns_lottoValueLoop_iff
    (network : Network) (tipHeight : Nat) (vout : List CTxOut)
    (iTxType : TransactionState) (nCurBetValue : Int64) :
    Returns (lottoValueLoop network tipHeight vout iTxType nCurBetValue) ↔
      ∀ txout ∈ vout, Classifiable network txout := by
  induction vout generalizing iTxType nCurBetValue with
  | nil => simp [lottoValueLoop]
  | cons vOut rest inductionHypothesis =>
      rw [lottoValueLoop, returns_bind_iff, List.forall_mem_cons,
        ← returns_getLottoTxOutType_iff network tipHeight vOut iTxType]
      simp only [inductionHypothesis]
      constructor
      · rintro ⟨scanned, ran, later⟩
        exact ⟨⟨scanned, ran⟩, later⟩
      · rintro ⟨⟨scanned, ran⟩, later⟩
        exact ⟨scanned, ran, later⟩

/-- The outputs of a transaction that are scanned can be classified. -/
def AllClassifiable (network : Network) (tx : CTransaction) : Prop :=
  tx.isCoinBase = false → ∀ txout ∈ tx.vout, Classifiable network txout

theorem returns_getLottoValueFromTx_iff
    (network : Network) (tipHeight : Nat) (tx : CTransaction) :
    Returns (getLottoValueFromTx network tipHeight tx) ↔
      AllClassifiable network tx := by
  rw [getLottoValueFromTx, AllClassifiable]
  split_ifs with coinBase
  · simp [coinBase]
  · simpa [coinBase] using
      returns_lottoValueLoop_iff network tipHeight tx.vout .normal 0

theorem returns_lottoValueFromTxs_iff
    (network : Network) (tipHeight : Nat) (txs : List CTransaction)
    (nCurBetValue : Int64) :
    Returns (lottoValueFromTxs network tipHeight txs nCurBetValue) ↔
      ∀ tx ∈ txs, AllClassifiable network tx := by
  induction txs generalizing nCurBetValue with
  | nil => simp [lottoValueFromTxs]
  | cons tx rest inductionHypothesis =>
      rw [lottoValueFromTxs, returns_bind_iff, List.forall_mem_cons,
        ← returns_getLottoValueFromTx_iff network tipHeight tx]
      simp only [inductionHypothesis]
      constructor
      · rintro ⟨value, ran, later⟩
        exact ⟨⟨value, ran⟩, later⟩
      · rintro ⟨⟨value, ran⟩, later⟩
        exact ⟨value, ran, later⟩

/-- The scan of a block returns when all its scanned outputs can be classified. -/
theorem returns_getLottoValueFromBlock_iff
    (network : Network) (tipHeight : Nat) (block : CBlock) :
    Returns (getLottoValueFromBlock network tipHeight block) ↔
      ∀ tx ∈ block.vtx, AllClassifiable network tx :=
  returns_lottoValueFromTxs_iff network tipHeight block.vtx 0

end DSValue.Consensus.Classification

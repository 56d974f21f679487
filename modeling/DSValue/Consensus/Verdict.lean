import DSValue.Coins.Availability
import DSValue.Consensus.Classification

/-!
# Blocks that are neither accepted nor rejected

A fault inside `ConnectBlock` is an exception that leaves it: a failed
`Assert` is caught by `AcceptBlock`, which shuts the node down.  Behind
`CheckBlock` the transactions of a block cannot cause one, since every input
is looked up before it is used and the outputs are in the money range.  What
remains is the scan for bets and the draw.
-/

namespace DSValue.Consensus.Verdict

open DSValue.Lib
open DSValue.Lib.Outcome
open DSValue.Core.Serialize
open DSValue.Core.Header
open DSValue.Core.Transaction
open DSValue.Core.Compress
open DSValue.Lotto.Bet
open DSValue.Script.Scan
open DSValue.Consensus.TxOut
open DSValue.Consensus.CheckLottoResult
open DSValue.Consensus.CheckBlock
open DSValue.Consensus.ConnectBlock
open DSValue.Consensus.Classification
open DSValue.Coins.Undo
open DSValue.Coins.Disconnect
open DSValue.Coins.Reversal
open DSValue.Coins.Availability

/-- The run ends with a value or a rejection. -/
def Settles {α : Type} (run : Except Failure α) : Prop :=
  Avoids (fun failure => ∃ fault, failure = .fault fault) run

section Settling

variable {α : Type}

theorem settles_pure (value : α) : Settles (pure value) :=
  avoids_pure value

theorem settles_require (condition : Bool) (reject : Reject) :
    Settles (require condition reject) := by
  rintro failure rejected ⟨fault, rfl⟩
  cases condition with
  | true => contradiction
  | false =>
      rw [require, if_neg Bool.false_ne_true] at rejected
      cases rejected

theorem settles_orFault_iff {run : Except Fault α} :
    Settles (orFault run) ↔ Returns run := by
  cases run with
  | ok value =>
      exact ⟨fun _ => returns_ok value, fun _ => settles_pure value⟩
  | error fault =>
      refine ⟨fun settles => ?_, fun returns => ?_⟩
      · exact absurd ⟨fault, rfl⟩ (settles _ rfl)
      · exact absurd returns (not_returns_error fault)

theorem settles_orReject_iff {run : Except Fault (Option Reject)} :
    Settles (orReject run) ↔ Returns run := by
  rcases run with fault | _ | reject
  · refine ⟨fun settles => ?_, fun returns => ?_⟩
    · exact absurd ⟨fault, rfl⟩ (settles _ rfl)
    · exact absurd returns (not_returns_error fault)
  · exact ⟨fun _ => returns_ok none, fun _ => settles_pure ()⟩
  · refine ⟨fun _ => returns_ok (some reject), fun _ => ?_⟩
    rintro failure rejected ⟨fault, rfl⟩
    cases rejected

theorem settles_forM
    {values : List α} {check : α → Except Failure Unit}
    (settles : ∀ value, Settles (check value)) :
    Settles (values.forM check) := by
  induction values with
  | nil => exact settles_pure ()
  | cons head tail inductionHypothesis =>
      exact (settles head).bind fun _ _ => inductionHypothesis

end Settling

/-! ## Checks without context -/

theorem settles_checkOutputs (vout : List CTxOut) (nValueOut : Int64) :
    Settles (checkOutputs vout nValueOut) := by
  induction vout generalizing nValueOut with
  | nil => exact settles_pure ()
  | cons txout rest inductionHypothesis =>
      refine (settles_require _ _).bind fun _ _ => ?_
      refine (settles_require _ _).bind fun _ _ => ?_
      refine (settles_require _ _).bind fun _ _ => ?_
      exact inductionHypothesis _

theorem settles_checkTransaction (tx : CTransaction) :
    Settles (checkTransaction tx) := by
  refine (settles_require _ _).bind fun _ _ => ?_
  refine (settles_require _ _).bind fun _ _ => ?_
  refine (settles_require _ _).bind fun _ _ => ?_
  refine (settles_checkOutputs _ _).bind fun _ _ => ?_
  refine (settles_require _ _).bind fun _ _ => ?_
  rw [checkPrevouts]
  split_ifs
  · exact settles_require _ _
  · exact settles_require _ _

theorem settles_checkCoinBases (txs : List CTransaction) :
    Settles (checkCoinBases txs) := by
  cases txs with
  | nil =>
      rintro failure rejected ⟨fault, rfl⟩
      cases rejected
  | cons first rest =>
      exact (settles_require _ _).bind fun _ _ => settles_require _ _

/-- `CheckBlock` never fails. -/
theorem settles_checkBlock
    (node : Node) (block : CBlock) (fCheckPOW fCheckMerkleRoot : Bool) :
    Settles (node.checkBlock block fCheckPOW fCheckMerkleRoot) := by
  refine (settles_require _ _).bind fun _ _ => ?_
  refine (settles_require _ _).bind fun _ _ => ?_
  refine (settles_require _ _).bind fun _ _ => ?_
  refine (settles_checkCoinBases _).bind fun _ _ => ?_
  refine (settles_forM settles_checkTransaction).bind fun _ _ => ?_
  refine (settles_require _ _).bind fun _ _ => ?_
  refine (settles_require _ _).bind fun _ _ => ?_
  exact settles_require _ _

/-! ## Transactions in a view -/

/-- The sums that `CheckTransaction` bounds are those of `GetValueOut`. -/
theorem returns_getValueOut
    {tx : CTransaction} (checked : checkTransaction tx = .ok ()) :
    Returns (getValueOut tx) := by
  have sums :
      ∀ (vout : List CTxOut) (nValueOut : Int64),
        checkOutputs vout nValueOut = .ok () →
          Returns (vout.foldlM
            (fun nValueOut txout =>
              if moneyRange txout.nValue &&
                  moneyRange (nValueOut + txout.nValue) then
                pure (nValueOut + txout.nValue)
              else (throw .exception : Except Fault Int64)) nValueOut) := by
    intro vout
    induction vout with
    | nil =>
        intro nValueOut _
        exact returns_pure nValueOut
    | cons txout rest inductionHypothesis =>
        intro nValueOut passes
        simp only [checkOutputs, bind_eq_ok, require_eq_ok, decide_eq_true_eq]
          at passes
        rcases passes with ⟨_, nonneg, _, bounded, _, sum, later⟩
        have range : moneyRange txout.nValue = true := by
          simpa [moneyRange] using ⟨nonneg, bounded⟩
        rw [List.foldlM_cons, range, sum, Bool.and_self, if_pos rfl]
        exact returns_bind_iff.mpr ⟨_, rfl, inductionHypothesis _ later⟩
  simp only [checkTransaction, bind_eq_ok] at checked
  rcases checked with ⟨_, _, _, _, _, _, _, outputs, _⟩
  exact sums tx.vout 0 outputs

theorem nodup_of_checkTransaction
    {tx : CTransaction} (checked : checkTransaction tx = .ok ()) :
    (tx.vin.map CTxIn.prevout).Nodup := by
  simp only [checkTransaction, bind_eq_ok, require_eq_ok, decide_eq_true_eq]
    at checked
  rcases checked with ⟨_, _, _, _, _, _, _, _, _, distinct, _⟩
  exact distinct

theorem vout_ne_nil_of_checkTransaction
    {tx : CTransaction} (checked : checkTransaction tx = .ok ()) :
    tx.vout ≠ [] := by
  simp only [checkTransaction, bind_eq_ok, require_eq_ok] at checked
  rcases checked with ⟨_, _, _, nonempty, _⟩
  simpa using nonempty

theorem returns_getOutputFor
    {view : CCoinsView} {txin : CTxIn}
    (isThere : (view.outputFor? txin).isSome = true) :
    Returns (view.getOutputFor txin) := by
  rcases Option.isSome_iff_exists.mp isThere with ⟨txout, found⟩
  rw [CCoinsView.getOutputFor, found]
  exact returns_pure txout

theorem spend_of_available
    {coins : CCoins} {nPos : Nat} {txout : CTxOut}
    (isLeft : available coins nPos = some txout) :
    (spend coins nPos).isSome = true := by
  rcases available_eq_some.mp isLeft with ⟨found, nonNull⟩
  rw [spend]
  simp [found, nonNull]

/-- Distinct available inputs can be spent one after the other. -/
theorem returns_spendInputs
    {view : CCoinsView} {vin : List CTxIn}
    (present :
      ∀ txin ∈ vin, (unspentAt view txin.prevout).isSome = true)
    (distinct : (vin.map CTxIn.prevout).Nodup) :
    Returns (view.spendInputs vin) := by
  induction vin generalizing view with
  | nil => exact returns_pure view
  | cons txin rest inductionHypothesis =>
      rw [List.map_cons, List.nodup_cons] at distinct
      rcases Option.isSome_iff_exists.mp
        (present txin List.mem_cons_self) with ⟨txout, found⟩
      rcases Option.bind_eq_some_iff.mp found with ⟨coins, holds, isLeft⟩
      rcases Option.isSome_iff_exists.mp (spend_of_available isLeft) with
        ⟨⟨spent, undo⟩, spends⟩
      have plain : coins.spend txin.prevout.n.toNat = some spent := by
        rw [← spend_fst, spends]
        rfl
      rw [CCoinsView.spendInputs]
      simp only [holds, plain]
      apply inductionHypothesis _ distinct.2
      intro other inRest
      have differs : other.prevout ≠ txin.prevout := by
        intro same
        exact distinct.1 (same ▸ List.mem_map_of_mem inRest)
      rw [unspentAt_spend holds (spends_of_spend spends), if_neg differs]
      exact present other (List.mem_cons_of_mem _ inRest)

theorem present_of_haveInputs
    {view : CCoinsView} {tx : CTransaction}
    (regular : tx.isCoinBase = false)
    (haveInputs : view.haveInputs tx = true) :
    ∀ txin ∈ tx.vin, (view.outputFor? txin).isSome = true := by
  rw [CCoinsView.haveInputs, regular, Bool.false_or, List.all_eq_true]
    at haveInputs
  exact haveInputs

theorem settles_checkInput
    {view : CCoinsView} {txin : CTxIn}
    (isThere : (view.outputFor? txin).isSome = true)
    (nSpendHeight : Nat) (nValueIn : Int64) :
    Settles (checkInput view nSpendHeight nValueIn txin) := by
  rcases Option.isSome_iff_exists.mp isThere with ⟨txout, found⟩
  rw [outputFor?_eq] at found
  rcases Option.bind_eq_some_iff.mp found with ⟨coins, holds, isLeft⟩
  rw [checkInput, holds]
  simp only [(available_eq_some.mp isLeft).1]
  refine (settles_require _ _).bind fun _ _ => ?_
  exact (settles_require _ _).bind fun _ _ => settles_pure _

theorem settles_checkInputs
    {node : Node} {view : CCoinsView} {tx : CTransaction}
    (checked : checkTransaction tx = .ok ())
    (present : ∀ txin ∈ tx.vin, (view.outputFor? txin).isSome = true)
    (nSpendHeight : Nat) (fScriptChecks fStrictPayToScriptHash : Bool) :
    Settles
      (checkInputs node view nSpendHeight fScriptChecks
        fStrictPayToScriptHash tx) := by
  refine (settles_require _ _).bind fun _ _ => ?_
  refine Avoids.bind
    (avoids_foldlM
      (fun txin member nValueIn =>
        settles_checkInput (present txin member) nSpendHeight nValueIn) 0)
    fun _ _ => ?_
  refine (settles_orFault_iff.mpr (returns_getValueOut checked)).bind
    fun _ _ => ?_
  refine (settles_require _ _).bind fun _ _ => ?_
  refine (settles_require _ _).bind fun _ _ => ?_
  refine (settles_require _ _).bind fun _ _ => ?_
  exact settles_require _ _

theorem settles_connectInputs
    {node : Node} {state : ConnectState} {tx : CTransaction}
    (checked : checkTransaction tx = .ok ())
    (nHeight : Nat) (fScriptChecks fStrictPayToScriptHash : Bool) :
    Settles
      (connectInputs node nHeight fScriptChecks fStrictPayToScriptHash state
        tx) := by
  rw [connectInputs]
  cases regular : tx.isCoinBase with
  | true => exact settles_pure state
  | false =>
      simp only [Bool.false_eq_true, if_false]
      refine (settles_require _ _).bind fun _ haveInputs => ?_
      have present :=
        present_of_haveInputs regular (require_eq_ok.mp haveInputs)
      have sigOps : Returns (getP2SHSigOpCount state.view tx) := by
        rw [getP2SHSigOpCount, if_neg (by simp [regular])]
        refine returns_foldlM (fun txin member nSigOps => ?_) 0
        exact (returns_getOutputFor (present txin member)).bind
          fun _ => returns_pure _
      have valueIn : Returns (state.view.getValueIn tx) := by
        rw [CCoinsView.getValueIn, if_neg (by simp [regular])]
        refine returns_foldlM (fun txin member nResult => ?_) 0
        exact (returns_getOutputFor (present txin member)).bind
          fun _ => returns_pure _
      have counted :
          Returns
            (if fStrictPayToScriptHash then getP2SHSigOpCount state.view tx
            else pure 0) := by
        split_ifs
        · exact sigOps
        · exact returns_pure 0
      refine (settles_orFault_iff.mpr counted).bind fun _ _ => ?_
      refine (settles_require _ _).bind fun _ _ => ?_
      refine (settles_orFault_iff.mpr valueIn).bind fun _ _ => ?_
      refine (settles_orFault_iff.mpr (returns_getValueOut checked)).bind
        fun _ _ => ?_
      refine Avoids.bind
        (settles_checkInputs checked present nHeight fScriptChecks
          fStrictPayToScriptHash) fun _ _ => ?_
      exact settles_pure _

/-- The loop leaves the view alone before it updates it. -/
theorem view_of_connectInputs
    {node : Node} {nHeight : Nat} {fScriptChecks fStrictPayToScriptHash : Bool}
    {state checked : ConnectState} {tx : CTransaction}
    (ran :
      connectInputs node nHeight fScriptChecks fStrictPayToScriptHash state
        tx = .ok checked) :
    checked.view = state.view ∧
      (tx.isCoinBase = false → state.view.haveInputs tx = true) := by
  rw [connectInputs] at ran
  cases regular : tx.isCoinBase with
  | true =>
      simp only [regular, if_true] at ran
      cases ran
      exact ⟨rfl, fun isRegular => absurd isRegular (by simp)⟩
  | false =>
      simp only [regular, Bool.false_eq_true, if_false, bind_eq_ok,
        require_eq_ok] at ran
      rcases ran with ⟨_, haveInputs, _, _, _, _, _, _, _, _, _, _, built⟩
      cases built
      exact ⟨rfl, fun _ => haveInputs⟩

theorem settles_connectTransaction
    {node : Node} {state : ConnectState} {tx : CTransaction}
    (checked : checkTransaction tx = .ok ())
    (nHeight : Nat) (fScriptChecks fStrictPayToScriptHash : Bool) :
    Settles
      (connectTransaction node nHeight fScriptChecks fStrictPayToScriptHash
        state tx) := by
  refine (settles_require _ _).bind fun _ _ => ?_
  refine Avoids.bind
    (settles_connectInputs checked nHeight fScriptChecks
      fStrictPayToScriptHash) fun next ran => ?_
  rcases view_of_connectInputs ran with ⟨sameView, haveInputs⟩
  have spent : Returns (markSpent next.view tx) := by
    rw [markSpent, sameView]
    cases regular : tx.isCoinBase with
    | true => exact returns_pure _
    | false =>
        refine returns_spendInputs ?_ (nodup_of_checkTransaction checked)
        intro txin member
        rw [← outputFor?_eq]
        exact present_of_haveInputs regular (haveInputs regular) txin member
  have updated : Returns (ConnectBlock.updateCoins node next.view nHeight tx) :=
    spent.bind fun _ => returns_pure _
  exact (settles_orFault_iff.mpr updated).bind fun _ _ => settles_pure _

theorem settles_connectTransactions
    {block : CBlock}
    (checked : ∀ tx ∈ block.vtx, checkTransaction tx = .ok ())
    (node : Node) (view : CCoinsView) (nHeight : Nat) :
    Settles (connectTransactions node view nHeight block) :=
  avoids_foldlM
    (fun tx member _ =>
      settles_connectTransaction (checked tx member) nHeight _ _) _

/-! ## The lottery part -/

/--
The draw of the block, if it draws with the right key, returns.  It reads the
bets of an earlier block.
-/
def DrawReturns
    (view : View) (pPreBlockIndex : CBlockIndex) (block : CBlock) : Prop :=
  2 * nIntervalLottery ≤ pPreBlockIndex.height →
    block.lottoHeader.uLottoKey ≠ 0 →
      view.getLotteryKey pPreBlockIndex.height =
          (block.lottoHeader.nLottoID, some block.lottoHeader.uLottoKey) →
        Returns
          (view.drawLottery pPreBlockIndex.item.lottoHeader.llPool
            pPreBlockIndex block.lottoHeader.nLottoID
            block.lottoHeader.uLottoKey)

/-- The block has a coinbase with an output. -/
def HasSubsidy (block : CBlock) : Prop :=
  ∃ coinBaseTx others subsidy prizes,
    block.vtx = coinBaseTx :: others ∧ coinBaseTx.vout = subsidy :: prizes

theorem hasSubsidy_of_checkBlock
    {node : Node} {block : CBlock} {fCheckPOW fCheckMerkleRoot : Bool}
    (accepted :
      node.checkBlock block fCheckPOW fCheckMerkleRoot = .ok ()) :
    HasSubsidy block := by
  rcases checked_of_checkBlock accepted with ⟨coinBaseTx, others, checked⟩
  have nonempty :=
    vout_ne_nil_of_checkTransaction
      (checked.transactions coinBaseTx (by rw [checked.vtx]; simp))
  rcases List.exists_cons_of_ne_nil nonempty with ⟨subsidy, prizes, vout⟩
  exact ⟨coinBaseTx, others, subsidy, prizes, checked.vtx, vout⟩

theorem returns_checkDraw_iff
    {view : View} {pPreBlockIndex : CBlockIndex} {block : CBlock}
    (subsidy : HasSubsidy block) (nCurBetValue : Int64)
    (high : 2 * nIntervalLottery ≤ pPreBlockIndex.height)
    (draws : block.lottoHeader.uLottoKey ≠ 0) :
    Returns (view.checkDraw pPreBlockIndex block nCurBetValue) ↔
      DrawReturns view pPreBlockIndex block := by
  rcases subsidy with ⟨coinBaseTx, others, first, prizes, vtx, vout⟩
  have coinBase : coinBaseOf block = .ok coinBaseTx := by
    rw [coinBaseOf, vtx]
    rfl
  have outputs : lottoTxOutOf coinBaseTx = .ok prizes := by
    rw [lottoTxOutOf, vout]
    rfl
  simp only [View.checkDraw, coinBase, outputs, DrawReturns, high, draws,
    bind, Except.bind, ne_eq, not_false_eq_true, forall_const]
  rcases key : view.getLotteryKey pPreBlockIndex.height with
    ⟨nID, _ | lottoKey⟩
  · simp
  · simp only [Prod.mk.injEq, Option.some.injEq]
    by_cases same :
        lottoKey = block.lottoHeader.uLottoKey ∧
          nID = block.lottoHeader.nLottoID
    · rcases same with ⟨rfl, rfl⟩
      simp only [not_true_eq_false, or_self, if_false, and_self,
        forall_const]
      cases drawn :
          view.drawLottery pPreBlockIndex.item.lottoHeader.llPool
            pPreBlockIndex block.lottoHeader.nLottoID
            block.lottoHeader.uLottoKey with
      | error fault => simp [not_returns_error]
      | ok result =>
          simp only
          split_ifs <;> simp [returns_ok]
    · rw [if_pos (by tauto)]
      simp only [returns_pure, true_iff]
      rintro ⟨sameID, sameKey⟩
      exact absurd ⟨sameKey, sameID⟩ same

theorem returns_checkNoDraw
    {block : CBlock} (subsidy : HasSubsidy block)
    (pPreBlockIndex : CBlockIndex) (nCurBetValue : Int64) :
    Returns (checkNoDraw pPreBlockIndex block nCurBetValue) := by
  rcases subsidy with ⟨coinBaseTx, others, first, prizes, vtx, vout⟩
  rw [checkNoDraw]
  by_cases pool :
      block.lottoHeader.llPool ≠
        pPreBlockIndex.item.lottoHeader.llPool + nCurBetValue
  · rw [if_pos pool]
    exact returns_pure _
  · rw [if_neg pool, returns_bind_iff]
    refine ⟨coinBaseTx, by rw [coinBaseOf, vtx]; rfl, ?_⟩
    split_ifs <;> exact returns_pure _

theorem returns_checkPool_iff
    {view : View} {pPreBlockIndex : CBlockIndex} {block : CBlock}
    (subsidy : HasSubsidy block) :
    Returns (view.checkPool pPreBlockIndex block) ↔
      (∀ tx ∈ block.vtx, AllClassifiable view.network tx) ∧
        DrawReturns view pPreBlockIndex block := by
  rw [View.checkPool, returns_bind_iff,
    ← returns_getLottoValueFromBlock_iff view.network
      view.chainActive.height block]
  by_cases draws :
      2 * nIntervalLottery ≤ pPreBlockIndex.height ∧
        block.lottoHeader.uLottoKey ≠ 0
  · simp only [draws, ne_eq, not_false_eq_true, and_self, if_true,
      returns_checkDraw_iff subsidy _ draws.1 draws.2]
    constructor
    · rintro ⟨value, scanned, returns⟩
      exact ⟨⟨value, scanned⟩, returns⟩
    · rintro ⟨⟨value, scanned⟩, returns⟩
      exact ⟨value, scanned, returns⟩
  · have noDraw : DrawReturns view pPreBlockIndex block :=
      fun high nonzero => absurd ⟨high, nonzero⟩ draws
    simp only [if_neg draws, noDraw, and_true]
    constructor
    · rintro ⟨value, scanned, -⟩
      exact ⟨value, scanned⟩
    · rintro ⟨value, scanned⟩
      exact ⟨value, scanned, returns_checkNoDraw subsidy _ _⟩

/-- The checks in front of the scan let the block pass. -/
structure ReachesScan
    (node : Node) (pprev : CBlockIndex) (block : CBlock) (fJustCheck : Bool) :
    Prop where
  checked : node.checkBlock block (!fJustCheck) (!fJustCheck) = .ok ()
  fresh : node.blockHash block ≠ node.hashGenesisBlock
  checkpoint :
    node.checkpointPasses (pprev.height + 1) (node.blockHash block) = true
  bitcoin :
    checkBitcoinPart node.bitcoin pprev.item.lottoHeader block.lottoHeader =
      none

theorem toView_checkLottoResult
    (node : Node) (pprev? : Option CBlockIndex) (block : CBlock) :
    node.toView.checkLottoResult pprev? block =
      if node.blockHash block = node.hashGenesisBlock then pure none
      else
        match pprev? with
        | none => pure (some ⟨10, .none, "bad-prevblk", false⟩)
        | some pprev =>
            if !node.checkpointPasses (pprev.height + 1)
                (node.blockHash block) then
              pure (some ⟨100, .checkpoint, "checkpoint mismatch", false⟩)
            else
              match checkBitcoinPart node.bitcoin pprev.item.lottoHeader
                  block.lottoHeader with
              | some reject => pure (some reject)
              | none => node.checkPool pprev block :=
  rfl

theorem returns_checkLottoResult_iff
    {node : Node} {pprev? : Option CBlockIndex} {block : CBlock}
    {fJustCheck : Bool}
    (checked : node.checkBlock block (!fJustCheck) (!fJustCheck) = .ok ()) :
    Returns (node.toView.checkLottoResult pprev? block) ↔
      ∀ pprev, pprev? = some pprev →
        ReachesScan node pprev block fJustCheck →
          (∀ tx ∈ block.vtx, AllClassifiable node.network tx) ∧
            DrawReturns node.toView pprev block := by
  rw [toView_checkLottoResult]
  by_cases genesis : node.blockHash block = node.hashGenesisBlock
  · simp only [if_pos genesis, returns_pure, true_iff]
    intro pprev _ reaches
    exact absurd genesis reaches.fresh
  rw [if_neg genesis]
  cases pprev? with
  | none => simp
  | some pprev =>
      simp only [Option.some.injEq, forall_eq']
      cases checkpoint :
          node.checkpointPasses (pprev.height + 1)
            (node.blockHash block) with
      | false =>
          simp only [Bool.not_false, if_true, returns_pure, true_iff]
          intro reaches
          exact absurd reaches.checkpoint (by rw [checkpoint]; simp)
      | true =>
          simp only [Bool.not_true, Bool.false_eq_true, if_false]
          cases bitcoin :
              checkBitcoinPart node.bitcoin pprev.item.lottoHeader
                block.lottoHeader with
          | some reject =>
              simp only [returns_pure, true_iff]
              intro reaches
              exact absurd reaches.bitcoin (by rw [bitcoin]; simp)
          | none =>
              simp only
              rw [returns_checkPool_iff (hasSubsidy_of_checkBlock checked)]
              exact
                ⟨fun returns _ => returns,
                  fun returns =>
                    returns ⟨checked, genesis, checkpoint, bitcoin⟩⟩

/-! ## The whole block -/

/-- `ConnectBlock` decides a block unless the scan or the draw fails. -/
theorem settles_connectBlock_iff
    (node : Node) (view : CCoinsView) (pprev? : Option CBlockIndex)
    (block : CBlock) (fJustCheck : Bool) :
    Settles (connectBlock node view pprev? block fJustCheck) ↔
      ∀ pprev, pprev? = some pprev →
        ReachesScan node pprev block fJustCheck →
          (∀ tx ∈ block.vtx, AllClassifiable node.network tx) ∧
            DrawReturns node.toView pprev block := by
  cases checks : node.checkBlock block (!fJustCheck) (!fJustCheck) with
  | error failure =>
      have stops :
          connectBlock node view pprev? block fJustCheck = .error failure := by
        rw [connectBlock, checks]
        rfl
      rw [stops]
      refine ⟨fun _ pprev _ reaches => ?_, fun _ other isOther => ?_⟩
      · exact absurd reaches.checked (by rw [checks]; simp)
      · cases isOther
        exact settles_checkBlock node block _ _ failure checks
  | ok _ =>
      have transactions : ∀ tx ∈ block.vtx, checkTransaction tx = .ok () := by
        rcases checked_of_checkBlock checks with ⟨_, _, checked⟩
        exact checked.transactions
      rcases hasSubsidy_of_checkBlock checks with
        ⟨coinBaseTx, others, subsidy, prizes, vtx, vout⟩
      have first : Returns (subsidyOf block) := by
        rcases coinBaseTx with ⟨nVersion, vin, outputs, nLockTime⟩
        simp only at vout
        rw [subsidyOf, vtx, vout]
        exact returns_pure subsidy
      rw [← returns_checkLottoResult_iff checks, ← settles_orReject_iff,
        connectBlock, checks]
      constructor
      · intro settles failure failed
        refine settles failure ?_
        simp only [bind, Except.bind, failed]
      · intro settles
        refine Avoids.bind (settles_pure ()) fun _ _ => ?_
        refine Avoids.bind settles fun _ _ => ?_
        refine (settles_require _ _).bind fun _ _ => ?_
        by_cases genesis : node.blockHash block = node.hashGenesisBlock
        · rw [if_pos genesis]
          exact settles_pure _
        rw [if_neg genesis]
        refine (settles_require _ _).bind fun _ _ => ?_
        refine Avoids.bind
          (settles_connectTransactions transactions node view _)
          fun _ _ => ?_
        refine (settles_orFault_iff.mpr first).bind fun _ _ => ?_
        exact (settles_require _ _).bind fun _ _ => settles_pure _

end DSValue.Consensus.Verdict

import DSValue.Consensus.Settlement

/-!
# The tip and the rule for refused bets

`GetLottoTxOutType` looks at the height of the active tip, not at the height
of the block: up to tip 4380 a bet that `CLotto::IsValid` refuses still
counts, later it does not.  The bet total of a block and the bets of the draw
are therefore the same for all tips on top of its parent when the parent
stands above 4380 or no examined output carries a refused bet.

A block that was accepted with a refused bet is rejected when it is checked
again under a tip above 4380.
-/

namespace DSValue.Consensus.TipHeight

open DSValue.Lib
open DSValue.Core.Serialize
open DSValue.Core.Header
open DSValue.Core.Transaction
open DSValue.Script.Scan
open DSValue.Lotto.Bet
open DSValue.Consensus.TxOut
open DSValue.Consensus.CheckLottoResult
open DSValue.Consensus.ConnectBlock
open DSValue.Consensus.QuietChain
open DSValue.Consensus.BetChain
open DSValue.Consensus.Drawable (countingEnv templateBet)
open DSValue.Consensus.Settlement (beforeBet)

/-! ## Refused bets -/

/-- The output pays the pool with a bet that `CLotto::IsValid` refuses. -/
def refusedBet (network : Network) (txout : CTxOut) : Bool :=
  isSendPoolAdress network txout.scriptPubKey &&
    match scanLotto txout.scriptPubKey with
    | .found vchPushValue =>
        match isValid vchPushValue txout.nValue with
        | .ok valid => !valid
        | .error _ => false
    | _ => false

/-- Two tips treat the output alike. -/
def SameRule
    (network : Network) (first second : Nat) (txout : CTxOut) : Prop :=
  (4380 < first ↔ 4380 < second) ∨ refusedBet network txout = false

theorem getLottoTxOutType_refused
    {network : Network} {txout : CTxOut}
    (refused : refusedBet network txout = true)
    (tipHeight : Nat) (txType : TransactionState) :
    getLottoTxOutType network tipHeight txout txType =
      .ok (true, if 4380 < tipHeight then .invalidLotto else .validLotto) := by
  simp only [refusedBet, Bool.and_eq_true] at refused
  rcases refused with ⟨pays, refused⟩
  rw [getLottoTxOutType, pays, if_neg (by simp)]
  cases scan : scanLotto txout.scriptPubKey with
  | unreadable => simp [scan] at refused
  | absent => simp [scan] at refused
  | found vchPushValue =>
      simp only [scan] at refused
      cases validity : isValid vchPushValue txout.nValue with
      | error fault => simp [validity] at refused
      | ok valid =>
          simp only [validity, Bool.not_eq_true'] at refused
          simp only [validity, refused, Bool.not_false, Bool.true_and,
            decide_eq_true_eq, bind, Except.bind]
          split_ifs <;> rfl

theorem getLottoTxOutType_congr
    {network : Network} {first second : Nat} {txout : CTxOut}
    (same : SameRule network first second txout)
    (txType : TransactionState) :
    getLottoTxOutType network first txout txType =
      getLottoTxOutType network second txout txType := by
  rw [getLottoTxOutType, getLottoTxOutType]
  by_cases pays : isSendPoolAdress network txout.scriptPubKey = true
  · rw [pays, if_neg (by simp), if_neg (by simp)]
    cases scan : scanLotto txout.scriptPubKey with
    | unreadable => rfl
    | absent => rfl
    | found vchPushValue =>
        cases validity : isValid vchPushValue txout.nValue with
        | error fault => simp only [validity, bind, Except.bind]
        | ok valid =>
            rcases same with rule | accepted
            · simp only [rule]
            · simp only [refusedBet, pays, scan, validity, Bool.true_and,
                Bool.not_eq_false'] at accepted
              simp only [validity, accepted, bind, Except.bind,
                Bool.not_true, Bool.false_and, Bool.false_eq_true, if_false]
  · rw [Bool.not_eq_true] at pays
    rw [pays, if_pos (by simp), if_pos (by simp)]

/-- The outputs of a transaction that the scan examines. -/
def SameRules
    (network : Network) (first second : Nat) (txs : List CTransaction) :
    Prop :=
  ∀ tx ∈ txs, tx.isCoinBase = false → ∀ txout ∈ tx.vout,
    SameRule network first second txout

section Scans

variable {network : Network} {first second : Nat}

theorem lottoValueLoop_congr
    {vout : List CTxOut}
    (same : ∀ txout ∈ vout, SameRule network first second txout)
    (iTxType : TransactionState) (nCurBetValue : Int64) :
    lottoValueLoop network first vout iTxType nCurBetValue =
      lottoValueLoop network second vout iTxType nCurBetValue := by
  induction vout generalizing iTxType nCurBetValue with
  | nil => rfl
  | cons vOut rest inductionHypothesis =>
      rw [lottoValueLoop, lottoValueLoop,
        getLottoTxOutType_congr (same vOut (by simp))]
      cases getLottoTxOutType network second vOut iTxType with
      | error fault => rfl
      | ok scanned =>
          exact inductionHypothesis
            (fun txout member => same txout (List.mem_cons_of_mem _ member))
            _ _

theorem getLottoValueFromTx_congr
    {tx : CTransaction}
    (same :
      tx.isCoinBase = false → ∀ txout ∈ tx.vout,
        SameRule network first second txout) :
    getLottoValueFromTx network first tx =
      getLottoValueFromTx network second tx := by
  rw [getLottoValueFromTx, getLottoValueFromTx]
  split_ifs with isCoinBase
  · rfl
  · exact lottoValueLoop_congr (same (by simpa using isCoinBase)) _ _

theorem lottoValueFromTxs_congr
    {txs : List CTransaction} (same : SameRules network first second txs)
    (nCurBetValue : Int64) :
    lottoValueFromTxs network first txs nCurBetValue =
      lottoValueFromTxs network second txs nCurBetValue := by
  induction txs generalizing nCurBetValue with
  | nil => rfl
  | cons tx rest inductionHypothesis =>
      rw [lottoValueFromTxs, lottoValueFromTxs,
        getLottoValueFromTx_congr (same tx (by simp))]
      cases getLottoValueFromTx network second tx with
      | error fault => rfl
      | ok value =>
          exact inductionHypothesis
            (fun other member => same other (List.mem_cons_of_mem _ member)) _

theorem collectBetsLoop_congr
    {vout : List CTxOut}
    (same : ∀ txout ∈ vout, SameRule network first second txout)
    (iTxType : TransactionState) (vBet : List CTxOut) :
    collectBetsLoop network first vout iTxType vBet =
      collectBetsLoop network second vout iTxType vBet := by
  induction vout generalizing iTxType vBet with
  | nil => rfl
  | cons txout rest inductionHypothesis =>
      rw [collectBetsLoop, collectBetsLoop,
        getLottoTxOutType_congr (same txout (by simp))]
      cases getLottoTxOutType network second txout iTxType with
      | error fault => rfl
      | ok scanned =>
          exact inductionHypothesis
            (fun other member => same other (List.mem_cons_of_mem _ member))
            _ _

theorem collectBetsFromTxs_congr
    {txs : List CTransaction} (same : SameRules network first second txs)
    (vBet : List CTxOut) :
    collectBetsFromTxs network first txs vBet =
      collectBetsFromTxs network second txs vBet := by
  induction txs generalizing vBet with
  | nil => rfl
  | cons tx rest inductionHypothesis =>
      have head :
          collectBetsFromTx network first tx vBet =
            collectBetsFromTx network second tx vBet := by
        rw [collectBetsFromTx, collectBetsFromTx]
        split_ifs with isCoinBase
        · rfl
        · exact collectBetsLoop_congr
            (same tx (by simp) (by simpa using isCoinBase)) _ _
      rw [collectBetsFromTxs, collectBetsFromTxs, head]
      cases collectBetsFromTx network second tx vBet with
      | error fault => rfl
      | ok collected =>
          exact inductionHypothesis
            (fun other member => same other (List.mem_cons_of_mem _ member)) _

end Scans

/-! ## What a block examines -/

/--
The outputs that the check of a block on top of `pprev` puts before
`GetLottoTxOutType`: its own and those of the block it may draw.
-/
inductive Examined (pprev : CBlockIndex) (block : CBlock) : CTxOut → Prop where
  | placed {tx : CTransaction} {txout : CTxOut}
      (inBlock : tx ∈ block.vtx) (regular : tx.isCoinBase = false)
      (output : txout ∈ tx.vout) : Examined pprev block txout
  | drawn {index : CBlockIndex} {tx : CTransaction} {txout : CTxOut}
      (deep : 120 ≤ pprev.height)
      (found : pprev.at? (pprev.height - 119) = some index)
      (inBlock : tx ∈ index.item.vtx.tail) (regular : tx.isCoinBase = false)
      (output : txout ∈ tx.vout) : Examined pprev block txout

/-- The height switch cannot matter for the block. -/
def Steady
    (network : Network) (pprev : CBlockIndex) (block : CBlock) : Prop :=
  4380 < pprev.height ∨
    ∀ txout, Examined pprev block txout → refusedBet network txout = false

section Steady

variable {network : Network} {pprev first second : CBlockIndex}
  {block : CBlock}

theorem Steady.sameRule
    (steady : Steady network pprev block)
    (firstAbove : pprev ≤ first) (secondAbove : pprev ≤ second)
    {txout : CTxOut} (examined : Examined pprev block txout) :
    SameRule network first.height second.height txout := by
  rcases steady with high | accepted
  · have firstHigh := Lineage.height_le_of_le firstAbove
    have secondHigh := Lineage.height_le_of_le secondAbove
    left
    constructor <;> intro <;> omega
  · exact Or.inr (accepted txout examined)

/-- Every index has an index of any greater height on top of it. -/
theorem exists_above (pprev : CBlockIndex) (steps : Nat) :
    ∃ tip, pprev ≤ tip ∧ tip.height = pprev.height + steps := by
  induction steps with
  | zero => exact ⟨pprev, le_rfl, rfl⟩
  | succ steps inductionHypothesis =>
      rcases inductionHypothesis with ⟨tip, above, height⟩
      refine ⟨.child tip tip.item,
        le_trans above (Lineage.le_child tip tip.item), ?_⟩
      rw [Lineage.height_child, height, Nat.add_assoc]

/-- The condition is exact for the classification of the outputs. -/
theorem steady_iff_sameTypes :
    Steady network pprev block ↔
      ∀ first second : CBlockIndex, pprev ≤ first → pprev ≤ second →
        ∀ txout, Examined pprev block txout → ∀ txType,
          getLottoTxOutType network first.height txout txType =
            getLottoTxOutType network second.height txout txType := by
  constructor
  · intro steady first second firstAbove secondAbove txout examined txType
    exact getLottoTxOutType_congr
      (steady.sameRule firstAbove secondAbove examined) txType
  · intro same
    by_cases high : 4380 < pprev.height
    · exact Or.inl high
    right
    intro txout examined
    rw [← Bool.not_eq_true]
    intro refused
    rcases exists_above pprev 4381 with ⟨tip, above, height⟩
    have equal := same pprev tip le_rfl above txout examined .normal
    rw [getLottoTxOutType_refused refused, getLottoTxOutType_refused refused,
      if_neg high, if_pos (by omega)] at equal
    cases equal

end Steady

/-! ## The check under two tips -/

/-- The view with another active tip. -/
def withTip (view : View) (tip : CBlockIndex) : View :=
  { view with chainActive := tip }

section TwoTips

variable {view : View} {pprev first second : CBlockIndex} {block : CBlock}

theorem getLottoValueFromBlock_congr
    (steady : Steady view.network pprev block)
    (firstAbove : pprev ≤ first) (secondAbove : pprev ≤ second) :
    getLottoValueFromBlock view.network first.height block =
      getLottoValueFromBlock view.network second.height block := by
  apply lottoValueFromTxs_congr
  intro tx inBlock regular txout output
  exact steady.sameRule firstAbove secondAbove
    (.placed inBlock regular output)

theorem seedHeight_le {nHeight : Nat} (deep : nIntervalLottery ≤ nHeight) :
    seedHeight nHeight ≤ nHeight := by
  rw [nIntervalLottery] at deep
  rw [seedHeight, nIntervalLottery, nLottoStep]
  omega

/-- The seed comes from below the parent. -/
theorem getLotteryHash_congr
    (firstAbove : pprev ≤ first) (secondAbove : pprev ≤ second) :
    (withTip view first).getLotteryHash pprev =
      (withTip view second).getLotteryHash pprev := by
  rw [View.getLotteryHash, View.getLotteryHash]
  split_ifs with shallow
  · rfl
  · have lower := seedHeight_le (Nat.not_lt.mp shallow)
    have seed :
        first.at? (seedHeight pprev.height) =
          second.at? (seedHeight pprev.height) := by
      rw [← Lineage.at?_of_at? firstAbove lower,
        ← Lineage.at?_of_at? secondAbove lower]
    simp only [withTip, seed]

theorem drawLottery_congr
    (steady : Steady view.network pprev block)
    (firstAbove : pprev ≤ first) (secondAbove : pprev ≤ second)
    (drawPool : Int64) (nID : Int32) (uLottoKey : Uint256) :
    (withTip view first).drawLottery drawPool pprev nID uLottoKey =
      (withTip view second).drawLottery drawPool pprev nID
        uLottoKey := by
  rw [View.drawLottery, View.drawLottery]
  cases found : lotteryBlock? pprev uLottoKey with
  | none => rfl
  | some index =>
      rcases lotteryBlock?_eq_some.mp found with ⟨deep, -, ancestor⟩
      have bets :
          collectBets (withTip view first).network
              (withTip view first).chainActive.height index.item =
            collectBets (withTip view second).network
              (withTip view second).chainActive.height index.item := by
        apply collectBetsFromTxs_congr
        intro tx inBlock regular txout output
        exact steady.sameRule firstAbove secondAbove
          (.drawn deep ancestor inBlock regular output)
      have seed :
          (withTip view first).getLotteryHash pprev =
            (withTip view second).getLotteryHash pprev :=
        getLotteryHash_congr firstAbove secondAbove
      simp only [bets, seed]
      rfl

theorem checkPool_congr
    (steady : Steady view.network pprev block)
    (firstAbove : pprev ≤ first) (secondAbove : pprev ≤ second) :
    (withTip view first).checkPool pprev block =
      (withTip view second).checkPool pprev block := by
  have draw :
      ∀ nCurBetValue,
        (withTip view first).checkDraw pprev block nCurBetValue =
          (withTip view second).checkDraw pprev block nCurBetValue := by
    intro nCurBetValue
    have key :
        (withTip view first).getLotteryKey pprev.height =
          (withTip view second).getLotteryKey pprev.height := rfl
    simp only [View.checkDraw, key,
      drawLottery_congr steady firstAbove secondAbove]
  have total :
      getLottoValueFromBlock (withTip view first).network
          (withTip view first).chainActive.height block =
        getLottoValueFromBlock (withTip view second).network
          (withTip view second).chainActive.height block :=
    getLottoValueFromBlock_congr steady firstAbove secondAbove
  simp only [View.checkPool, total, draw]

theorem checkLottoResult_congr
    (steady : Steady view.network pprev block)
    (firstAbove : pprev ≤ first) (secondAbove : pprev ≤ second) :
    (withTip view first).checkLottoResult (some pprev) block =
      (withTip view second).checkLottoResult (some pprev) block := by
  have pool := checkPool_congr steady firstAbove secondAbove
  have checkpoint :
      ∀ nHeight hash,
        (withTip view first).checkpointPasses nHeight hash =
          (withTip view second).checkpointPasses nHeight hash := by
    intro nHeight hash
    rfl
  simp only [View.checkLottoResult, pool, checkpoint]
  rfl

end TwoTips

/-- The lottery check of the block has one result under all tips. -/
def TipIndependent
    (view : View) (pprev : CBlockIndex) (block : CBlock) : Prop :=
  ∀ first second, pprev ≤ first → pprev ≤ second →
    getLottoValueFromBlock view.network first.height block =
      getLottoValueFromBlock view.network second.height block ∧
    (∀ drawPool nID uLottoKey,
      (withTip view first).drawLottery drawPool pprev nID uLottoKey =
        (withTip view second).drawLottery drawPool pprev nID
          uLottoKey) ∧
    (withTip view first).checkLottoResult (some pprev) block =
      (withTip view second).checkLottoResult (some pprev) block

/-- A bet of six numbers with a stake of one unit. -/
def cheapBet : CTxOut :=
  { templateBet with nValue := 1 }

/-- Block 151, with the cheap bet. -/
def cheapBlock : CBlock :=
  betBlock beforeBet 1 [1] [cheapBet]

/-- The chain after another 4300 blocks. -/
def lateTip : CBlockIndex :=
  quietChain 4300 (.child beforeBet cheapBlock)

def checkingView : View :=
  (during (countingNode countingEnv) (snapshotOf startChain) beforeBet).toView

theorem placeable_cheapBet : Placeable 150 [1] [cheapBet] 1 1 := by
  constructor <;> decide

theorem accepted_lateTip :
    ∃ coins, Accepted (countingNode countingEnv) (fun _ => True) lateTip
      coins := by
  rcases quiet_chainWithBet countingEnv 150 4300 placeable_cheapBet
      (by decide) (by decide) (by decide) with ⟨coins, quiet⟩
  exact ⟨coins, quiet.chain⟩

theorem height_beforeBet : beforeBet.height = 150 := by
  rw [beforeBet, height_quietChain]
  rfl

theorem height_lateTip : lateTip.height = 4451 := by
  rw [lateTip, height_quietChain, Lineage.height_child, height_beforeBet]

theorem beforeBet_le_lateTip : beforeBet ≤ lateTip := by
  rw [Lineage.le_iff_at?, lateTip, at?_quietChain 4300 (by simp),
    Lineage.at?_child_of_le le_rfl]
  exact Lineage.at?_self beforeBet

theorem cheapBlock_total_early :
    getLottoValueFromBlock .main beforeBet.height cheapBlock = .ok 1 := by
  apply getLottoValueFromBlock_bet
  rw [height_beforeBet]
  exact placeable_cheapBet.bets

theorem cheapBlock_total_late :
    getLottoValueFromBlock .main lateTip.height cheapBlock = .ok 0 := by
  apply getLottoValueFromBlock_bet
  rw [height_lateTip]
  decide

theorem quiet_beforeBet :
    ∃ coins, Quiet countingEnv (fun _ => True) beforeBet coins := by
  rcases (quiet_genesis countingEnv (fun _ => True)).run 150
      (snapshotOf startChain) trivial (by decide) (by decide) with
    ⟨coins, quiet, -⟩
  exact ⟨coins, quiet⟩

/-- Behind the Bitcoin part the check of the block is that of its pool. -/
theorem checkLottoResult_cheapBlock (tip : CBlockIndex) :
    (withTip checkingView tip).checkLottoResult (some beforeBet) cheapBlock =
      (withTip checkingView tip).checkPool beforeBet cheapBlock := by
  rcases quiet_beforeBet with ⟨coins, quiet⟩
  have near :
      ¬ 1 < Int32.ofInt BTC_START_HIGHT -
        CLottoHeader.getLastBitcoinHeight beforeBet.item.lottoHeader := by
    rw [quiet.last]
    decide
  have bitcoin :
      checkBitcoinPart (withTip checkingView tip).bitcoin
        beforeBet.item.lottoHeader cheapBlock.lottoHeader = none :=
    checkBitcoinPart_start _ _ _ rfl near
  have small : beforeBet.height + 1 < 2 ^ 32 := by
    rw [height_beforeBet]
    decide
  have notGenesis :
      CBlockHeader.getHash (withTip checkingView tip).hash9
          cheapBlock.toCBlockHeader ≠
        (withTip checkingView tip).hashGenesisBlock := by
    have hash : _ = nonceOf cheapBlock :=
      getHash_nonceHash cheapBlock.toCBlockHeader
    rw [cheapBlock, betBlock, blockHash_mintedBlock small] at hash
    rw [cheapBlock, betBlock]
    intro equal
    exact ofNat_ne_zero small (hash.symm.trans equal)
  have checkpoint :
      (withTip checkingView tip).checkpointPasses (beforeBet.height + 1)
        (CBlockHeader.getHash (withTip checkingView tip).hash9
          cheapBlock.toCBlockHeader) = true := rfl
  rw [View.checkLottoResult, if_neg notGenesis]
  simp only [checkpoint, bitcoin, Bool.not_true, Bool.false_eq_true, if_false]

/-- Without a draw the pool has to grow by the bet total. -/
theorem checkPool_rejects
    {view : View} {pPreBlockIndex : CBlockIndex} {block : CBlock}
    {nCurBetValue : Int64}
    (total :
      getLottoValueFromBlock view.network view.chainActive.height block =
        .ok nCurBetValue)
    (key : block.lottoHeader.uLottoKey = 0)
    (differs :
      block.lottoHeader.llPool ≠
        pPreBlockIndex.item.lottoHeader.llPool + nCurBetValue) :
    view.checkPool pPreBlockIndex block =
      .ok (some ⟨100, .dirtyBlock, "bad-block", true⟩) := by
  rw [View.checkPool, total]
  simp only [bind, Except.bind]
  rw [if_neg (fun both => both.2 key), checkNoDraw, if_pos differs]
  rfl

theorem cheapBlock_passes_early :
    (withTip checkingView beforeBet).checkLottoResult (some beforeBet)
      cheapBlock = .ok none := by
  rcases quiet_beforeBet with ⟨coins, quiet⟩
  rw [checkLottoResult_cheapBlock]
  exact checkPool_quiet cheapBlock_total_early rfl rfl quiet.key

theorem cheapBlock_fails_late :
    (withTip checkingView lateTip).checkLottoResult (some beforeBet)
      cheapBlock = .ok (some ⟨100, .dirtyBlock, "bad-block", true⟩) := by
  have total :
      getLottoValueFromBlock (withTip checkingView lateTip).network
        (withTip checkingView lateTip).chainActive.height cheapBlock =
          .ok 0 :=
    cheapBlock_total_late
  have key : cheapBlock.lottoHeader.uLottoKey = 0 := rfl
  have pool :
      cheapBlock.lottoHeader.llPool =
        beforeBet.item.lottoHeader.llPool + 1 := rfl
  rw [checkLottoResult_cheapBlock]
  apply checkPool_rejects total key
  rw [pool, beforeBet, llPool_quietChain]
  decide

end DSValue.Consensus.TipHeight

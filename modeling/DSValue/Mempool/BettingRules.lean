import DSValue.Mempool.Accept
import DSValue.Consensus.TipHeight

/-!
# Where the betting rules are enforced

`IsTransactionValid` and the fee of `GetLottoFee` are rules for loose
transactions.  `ConnectBlock` knows neither of them: of a transaction of a
block it asks that its inputs are there and that its fee is in the money
range.
-/

namespace DSValue.Mempool.BettingRules

open DSValue.Lib
open DSValue.Core.Serialize
open DSValue.Core.Transaction
open DSValue.Script.Scan
open DSValue.Consensus.CheckLottoResult
open DSValue.Consensus.CheckBlock
open DSValue.Consensus.ConnectBlock
open DSValue.Consensus.QuietChain
open DSValue.Consensus.BetChain
open DSValue.Consensus.Drawable (countingEnv templateBet)
open DSValue.Consensus.TipHeight (cheapBet)
open DSValue.Mempool.Pool
open DSValue.Mempool.Accept
/-! ## Transactions of a block -/

/-- The inputs are there, and the fee is in the money range. -/
structure PaysFee (view : CCoinsView) (tx : CTransaction) : Prop where
  inputs : view.haveInputs tx = true
  fee :
    ∃ nValueIn nValueOut,
      view.getValueIn tx = .ok nValueIn ∧
      getValueOut tx = .ok nValueOut ∧
      moneyRange (nValueIn - nValueOut) = true

/-- `CheckInputs` adds the values that `GetValueIn` adds. -/
theorem getValueIn_of_checkInput
    {view : CCoinsView} {nSpendHeight : Nat} {nValueIn total : Int64}
    {vin : List CTxIn}
    (available : ∀ txin ∈ vin, (view.outputFor? txin).isSome = true)
    (checked :
      vin.foldlM (checkInput view nSpendHeight) nValueIn = .ok total) :
    vin.foldlM
        (fun nResult txin => do
          let txout ← view.getOutputFor txin
          pure (nResult + txout.nValue)) nValueIn =
      (Except.ok total : Except Fault Int64) := by
  induction vin generalizing nValueIn with
  | nil =>
      cases checked
      rfl
  | cons txin rest inductionHypothesis =>
      rw [List.foldlM_cons] at checked ⊢
      rcases bind_eq_ok.mp checked with ⟨value, ranFirst, ranRest⟩
      refine bind_eq_ok.mpr ⟨value, ?_, inductionHypothesis
        (fun other member => available other (List.mem_cons_of_mem _ member))
        ranRest⟩
      rcases Option.isSome_iff_exists.mp
          (available txin List.mem_cons_self) with ⟨txout, output⟩
      have isOutput : view.getOutputFor txin = .ok txout := by
        rw [CCoinsView.getOutputFor, output]
        rfl
      rw [CCoinsView.outputFor?] at output
      cases known : view.coins txin.prevout.hash with
      | none =>
          rw [known] at output
          cases output
      | some coins =>
          simp only [known] at output
          split_ifs at output
          simp only [checkInput, known, output, bind_eq_ok, require_eq_ok]
            at ranFirst
          rcases ranFirst with ⟨_, _, _, _, isValue⟩
          cases isValue
          exact bind_eq_ok.mpr ⟨txout, isOutput, rfl⟩

/-- What the loop of `ConnectBlock` asks of a transaction. -/
theorem paysFee_of_connectTransaction
    {node : Node} {nHeight : Nat} {fScriptChecks fStrict : Bool}
    {state next : ConnectState} {tx : CTransaction}
    (regular : tx.isCoinBase = false)
    (ran :
      connectTransaction node nHeight fScriptChecks fStrict state tx =
        .ok next) :
    PaysFee state.view tx := by
  simp only [connectTransaction, connectInputs, regular, checkInputs,
    bind_eq_ok, require_eq_ok, orFault_eq_ok, Bool.false_eq_true, if_false]
    at ran
  rcases ran with ⟨_, _, _, ⟨_, inputs, _, _, _, _, nValueIn, valueIn,
    nValueOut, valueOut, _, ⟨_, _, total, sum, value, isValue, _, _, _, _, _,
      range, _⟩, _⟩, _⟩
  have available :
      ∀ txin ∈ tx.vin, (state.view.outputFor? txin).isSome = true := by
    rw [CCoinsView.haveInputs, regular, Bool.false_or, List.all_eq_true]
      at inputs
    exact inputs
  have sameIn := getValueIn_of_checkInput available sum
  have isIn := valueIn
  simp only [CCoinsView.getValueIn, regular, Bool.false_eq_true, if_false]
    at isIn
  rw [isIn, Except.ok.injEq] at sameIn
  rw [valueOut, Except.ok.injEq] at isValue
  refine ⟨inputs, nValueIn, nValueOut, valueIn, valueOut, ?_⟩
  rw [sameIn, isValue]
  exact range

theorem foldlM_append_cons
    {ε σ α : Type} {step : σ → α → Except ε σ} {before after : List α}
    {value : α} {start final : σ}
    (ran : (before ++ value :: after).foldlM step start = .ok final) :
    ∃ state next, before.foldlM step start = .ok state ∧
      step state value = .ok next := by
  rw [List.foldlM_append] at ran
  rcases bind_eq_ok.mp ran with ⟨state, ranBefore, ranRest⟩
  rw [List.foldlM_cons] at ranRest
  rcases bind_eq_ok.mp ranRest with ⟨next, ranValue, -⟩
  exact ⟨state, next, ranBefore, ranValue⟩

/--
The betting rules are relay rules: loose transactions keep them, and of the
transactions of an accepted block only the fee is bounded.
-/
theorem betting_rules_relayed :
    (∀ (node : Node) (relay : Relay) (pindexPrev : CBlockIndex)
        (coins : CCoinsView) (pool next : CTxMemPool) (tx : CTransaction)
        (fLimitFree fRejectInsaneFee : Bool),
      acceptToMemoryPool node relay pindexPrev coins pool tx fLimitFree
          fRejectInsaneFee = .ok next →
        KeepsRules node (poolView pool coins) tx) ∧
      ∀ (node : Node) (view next : CCoinsView) (pprev : CBlockIndex)
        (block : CBlock) (fJustCheck : Bool),
        node.blockHash block ≠ node.hashGenesisBlock →
        connectBlock node view (some pprev) block fJustCheck = .ok next →
        ∀ before tx after, block.vtx = before ++ tx :: after →
          tx.isCoinBase = false →
          ∃ state,
            before.foldlM
                (connectTransaction node (pprev.height + 1)
                  (decide (node.nTotalBlocksEstimate ≤ pprev.height + 1))
                  (decide (1333238400 ≤ block.nTime.toNat)))
                ⟨view, 0, 0⟩ = .ok state ∧
            PaysFee state.view tx := by
  constructor
  · intro node relay pindexPrev coins pool next tx fLimitFree
      fRejectInsaneFee accepted
    exact (accepts_of_acceptToMemoryPool accepted).rules
  · intro node view next pprev block fJustCheck fresh accepted before tx after
      isVtx regular
    rcases connected_of_connectBlock fresh accepted with
      ⟨final, _, _, _, _, connected⟩
    have ran := connected.transactions
    rw [connectTransactions, isVtx] at ran
    rcases foldlM_append_cons ran with ⟨state, later, ranBefore, ranTx⟩
    exact ⟨state, ranBefore, paysFee_of_connectTransaction regular ranTx⟩

/-! ## A block that the relay rules would not let pass -/

/-- A bet, a refused bet, and the rest of a coinbase, without a fee. -/
def unrulyOutputs : List CTxOut :=
  [templateBet, cheapBet, ⟨9999999799999, [OP_1]⟩]

def beforeUnruly : CBlockIndex :=
  quietChain 4400 (.root genesisBlock)

/-- Block 4401. -/
def unrulyBlock : CBlock :=
  betBlock beforeUnruly 200000 [1] unrulyOutputs

theorem placeable_unruly :
    Placeable 4400 [1] unrulyOutputs 10000000000000 200000 := by
  constructor <;> decide +kernel

/-- The rest of the chain leaves the first coinbase to be spent. -/
theorem quiet_spendable
    (count : Nat) (many : 101 ≤ count) (small : count + 1 < 2 ^ 31) :
    ∃ view,
      Quiet countingEnv (fun _ => True) (quietChain count (.root genesisBlock))
        view ∧
      view.coins (BitVec.ofNat 256 0x80000000) = none ∧
      Spendable view [1] (count + 1) := by
  rcases (quiet_genesis countingEnv (fun _ => True)).run count
      (snapshotOf startChain) trivial (by decide)
      (by rw [Lineage.height_root]; omega) with ⟨view, quiet, run⟩
  refine ⟨view, quiet, ?_, ?_, ?_, ?_⟩
  · rw [run.kept]
    intro nHeight above below equal
    rw [Lineage.height_root] at below
    exact ofNat_ne_spender (by omega) equal.symm
  · intro nHeight member
    rw [List.mem_singleton.mp member]
    apply run.minted
    · rw [Lineage.height_root]
      decide
    · rw [Lineage.height_root]
      omega
  · intro nHeight member
    rw [List.mem_singleton.mp member]
    decide
  · intro nHeight member
    rw [List.mem_singleton.mp member]
    omega

theorem height_beforeUnruly : beforeUnruly.height = 4400 := by
  rw [beforeUnruly, height_quietChain]
  rfl

/-- The block is accepted, and one of its transactions breaks both rules. -/
theorem unruly_block_accepted :
    ∃ view next,
      Accepted (countingNode countingEnv) (fun _ => True) beforeUnruly view ∧
      connectBlock
          (during (countingNode countingEnv) (snapshotOf startChain)
            beforeUnruly) view (some beforeUnruly) unrulyBlock false =
        .ok next ∧
      beforeUnruly.height + 1 = 4401 ∧
      unrulyBlock.vtx = [mintedCoinBase (beforeUnruly.height + 1) [],
        spender [1] unrulyOutputs] ∧
      (spender [1] unrulyOutputs).isCoinBase = false ∧
      isTransactionValid .main beforeUnruly.height
        (spender [1] unrulyOutputs) = .ok false ∧
      (afterCoinBase view (beforeUnruly.height + 1) []).view.getValueIn
        (spender [1] unrulyOutputs) = .ok 10000000000000 ∧
      getValueOut (spender [1] unrulyOutputs) = .ok 10000000000000 ∧
      getLottoFee .main beforeUnruly.height (spender [1] unrulyOutputs) =
        .ok 10000 := by
  rcases quiet_spendable 4400 (by decide) (by decide) with
    ⟨view, quiet, unused, spendable⟩
  have height := height_beforeUnruly
  have small : beforeUnruly.height + 1 < 2 ^ 31 := by
    rw [height]
    decide
  have placeable := placeable_unruly
  rw [← height] at placeable spendable
  have mintable :=
    mintable_bet quiet
      (show 1404273600 ≤ (snapshotOf startChain).nAdjustedTime by decide)
      small unused placeable
  rcases connect_bet countingEnv (snapshotOf startChain) small spendable
      placeable with ⟨next, run, -⟩
  have connected := mintable.connectBlock run (fees_bet _ placeable)
  refine ⟨view, _, quiet.chain, connected, by rw [height], rfl,
    spender_isCoinBase _ _, ?_,
    getValueIn_spender (spendable_afterCoinBase small spendable),
    placeable.value, ?_⟩
  · rw [height]
    decide
  · rw [height]
    decide

/-! ## A loose transaction that is accepted -/

/-- A bet that leaves twice the fee it has to. -/
def looseBet : CTransaction :=
  spender [1] [templateBet, ⟨9999999780000, [OP_1]⟩]

/-- Relaying without standard forms and limits. -/
def openRelay : Relay where
  isStandardTx := fun _ => none
  areInputsStandard := fun _ _ => true
  verifyStrict := fun scriptSig scriptPubKey _ _ =>
    scriptSig = [] ∧ scriptPubKey = [OP_1]
  nMinRelayTxFee := 1000
  freeLimitReached := false

theorem poolView_empty (view : CCoinsView) :
    poolView .empty view = view := by
  rw [poolView]
  congr 1
  funext txid
  cases view.coins txid with
  | none => rfl
  | some coins => rfl

theorem accept_looseBet
    {tip : CBlockIndex} {view : CCoinsView} (height : tip.height = 150)
    (unused : view.coins (BitVec.ofNat 256 0x80000000) = none)
    (spendable : Spendable view [1] (tip.height + 1)) :
    acceptToMemoryPool
        (during (countingNode countingEnv) (snapshotOf startChain) tip)
        openRelay tip view .empty looseBet true true =
      .ok (CTxMemPool.empty.addUnchecked (lockTimeHash looseBet) looseBet) := by
  have value : getValueOut looseBet = .ok 9999999980000 := by
    decide
  have inputs : view.haveInputs looseBet = true :=
    haveInputs_spender spendable.unspent
  have known :
      (looseBet.vin.all fun txin => (view.coins txin.prevout.hash).isSome) =
        true := by
    rw [List.all_eq_true]
    intro txin member
    rw [List.mem_singleton.mp member]
    have coins := spendable.unspent 1 (by simp)
    exact Option.isSome_iff_exists.mpr ⟨_, coins⟩
  have spends :
      checkSpends
        (during (countingNode countingEnv) (snapshotOf startChain) tip) .empty
        view looseBet = .ok () := by
    simp only [checkSpends, bind_eq_ok, require_eq_ok]
    exact ⟨(), rfl, (), rfl, (), Option.isNone_iff_eq_none.mpr unused, (),
      known, inputs⟩
  have fees :
      checkFees
        (during (countingNode countingEnv) (snapshotOf startChain) tip)
        openRelay view looseBet true true = .ok () := by
    simp only [checkFees, bind_eq_ok, require_eq_ok, orFault_eq_ok]
    refine ⟨_, getValueIn_spender spendable, _, value, true, ?_, (), rfl,
      10000, ?_, (), by decide, 10000, ?_, (), by decide, (), by decide,
      by decide⟩
    · show isTransactionValid .main tip.height looseBet = .ok true
      rw [height]
      decide
    · show getLottoFee .main tip.height looseBet = .ok 10000
      rw [height]
      decide
    · show getMinFee .main tip.height 1000 looseBet _ = .ok 10000
      rw [height]
      decide +kernel
  simp only [acceptToMemoryPool, bind_eq_ok, require_eq_ok, poolView_empty]
  refine ⟨(), by decide +kernel, (), ?_, (), rfl, (), spends, (), rfl, (),
    fees, (), ?_, rfl⟩
  · rw [looseBet, spender_isCoinBase]
    rfl
  · exact checkInputs_spender spendable (by decide) value (by decide)
      (by decide)

/-- The rules on the loose bet, and the fee of the same bet in a block. -/
theorem betting_rules_relayed_here :
    ∃ view next,
      KeepsRules
        (during (countingNode countingEnv) (snapshotOf startChain)
          (quietChain 150 (.root genesisBlock)))
        (poolView .empty view) looseBet ∧
      connectBlock
          (during (countingNode countingEnv) (snapshotOf startChain)
            (quietChain 150 (.root genesisBlock))) view
          (some (quietChain 150 (.root genesisBlock)))
          (betBlock (quietChain 150 (.root genesisBlock)) 200000 [1]
            looseBet.vout) false = .ok next ∧
      ∃ state : ConnectState, PaysFee state.view looseBet := by
  rcases quiet_spendable 150 (by decide) (by decide) with
    ⟨view, quiet, unused, spendable⟩
  have height :
      (quietChain 150 (.root genesisBlock)).height = 150 := by
    rw [height_quietChain]
    rfl
  have small : (quietChain 150 (.root genesisBlock)).height + 1 < 2 ^ 31 := by
    rw [height]
    decide
  have placeable :
      Placeable 150 [1] looseBet.vout 9999999980000 200000 := by
    constructor <;> decide +kernel
  rw [← height] at spendable placeable
  have mintable :=
    mintable_bet quiet
      (show 1404273600 ≤ (snapshotOf startChain).nAdjustedTime by decide)
      small unused placeable
  rcases connect_bet countingEnv (snapshotOf startChain) small spendable
      placeable with ⟨next, run, -⟩
  have connected := mintable.connectBlock run (fees_bet _ placeable)
  have fresh :
      (during (countingNode countingEnv) (snapshotOf startChain)
          (quietChain 150 (.root genesisBlock))).blockHash
          (betBlock (quietChain 150 (.root genesisBlock)) 200000 [1]
            looseBet.vout) ≠ 0 := by
    rw [blockHash_countingNode, betBlock,
      blockHash_mintedBlock mintable.small]
    exact ofNat_ne_zero mintable.small
  have paid :=
    betting_rules_relayed.2 _ _ _ _ _ _ fresh connected
      [mintedCoinBase _ []] looseBet [] rfl (spender_isCoinBase _ _)
  rcases paid with ⟨state, -, paysFee⟩
  exact ⟨view, _,
    betting_rules_relayed.1 _ _ _ _ _ _ _ _ _
      (accept_looseBet height unused spendable),
    connected, state, paysFee⟩

end DSValue.Mempool.BettingRules

import DSValue.Consensus.BetChain
import DSValue.Consensus.Drawable

/-!
# The pool along a chain

The pool of an accepted chain is the pool of the genesis block plus all bets
minus all prizes, no coinbase pays more than the block value and the prizes,
and no block pays more than four fifths of the pool.  This holds along every
chain whose draws are over sound bets with prizes that fit into an `int64_t`
and whose pool stays below `2 ^ 53`, where the `double` arithmetic of the
draw is exact enough.
-/

namespace DSValue.Consensus.PoolAccounting

open DSValue.Lib
open DSValue.Lib.Encoding
open DSValue.Core.Serialize
open DSValue.Core.Header
open DSValue.Core.Transaction
open DSValue.Script.Scan
open DSValue.Lotto.Bet
open DSValue.Lotto.Draw
open DSValue.Lotto.Payout
open DSValue.Consensus.TxOut
open DSValue.Consensus.Drawable
open DSValue.Consensus.CheckLottoResult
open DSValue.Consensus.CheckBlock
open DSValue.Consensus.ConnectBlock
open DSValue.Consensus.QuietChain
open DSValue.Consensus.BetChain

/-! ## The accounts of a chain -/

/-- `lottoHeader.llPool`. -/
def poolOf (index : CBlockIndex) : Int :=
  index.item.lottoHeader.llPool.toInt

/-- `GetLottoValueFromBlock` of a block at the time it is connected. -/
def betsOf (network : Network) (pprev : CBlockIndex) (block : CBlock) : Int :=
  match getLottoValueFromBlock network pprev.height block with
  | .ok nCurBetValue => nCurBetValue.toInt
  | .error _ => 0

def coinBaseOutputs (block : CBlock) : List CTxOut :=
  match block.vtx with
  | [] => []
  | coinBaseTx :: _ => coinBaseTx.vout

/-- The coinbase outputs behind the first one. -/
def prizesOf (block : CBlock) : Int :=
  totalValue (coinBaseOutputs block).tail

def betsSoFar (network : Network) : CBlockIndex → Int
  | .root _ => 0
  | .child pprev block => betsSoFar network pprev + betsOf network pprev block

def prizesSoFar : CBlockIndex → Int
  | .root _ => 0
  | .child pprev block => prizesSoFar pprev + prizesOf block

/-- The pool of the genesis block. -/
def genesisPool : Int :=
  genesisLottoHeader.llPool.toInt

/--
What a coinbase may pay, for every way the block was connected: the block
value with the fees of its transactions and what the pool loses.
-/
def CoinBaseBounded
    (node : Node) (pprev : CBlockIndex) (block : CBlock) : Prop :=
  ∀ before snapshot next state,
    Accepted node (fun _ => True) pprev before →
    connectBlock (during node snapshot pprev) before (some pprev) block
      false = .ok next →
    connectTransactions (during node snapshot pprev) before
      (pprev.height + 1) block = .ok state →
      totalValue (coinBaseOutputs block) ≤
        (getBlockValue (pprev.height + 1) state.nFees).toInt +
          (poolOf pprev + betsOf node.network pprev block -
            block.lottoHeader.llPool.toInt)

/-- The accounts of one block on top of its parent. -/
structure Accounted
    (node : Node) (pprev : CBlockIndex) (block : CBlock) : Prop where
  coinBase : CoinBaseBounded node pprev block
  nonneg : 0 ≤ block.lottoHeader.llPool.toInt
  fourFifths : 10 * prizesOf block ≤ 8 * poolOf pprev

/-- The accounts of a whole chain. -/
structure PoolAccounts (node : Node) (tip : CBlockIndex) : Prop where
  pool :
    ∀ nHeight index, tip.at? nHeight = some index →
      poolOf index =
        genesisPool + betsSoFar node.network index - prizesSoFar index
  blocks :
    ∀ nHeight pprev block,
      tip.at? (nHeight + 1) = some (.child pprev block) →
        Accounted node pprev block

/-! ## Sound steps -/

/-- The bets that a block draws, with what the draw reads, are sound. -/
def SoundDraw (node : Node) (pprev : CBlockIndex) (block : CBlock) : Prop :=
  ∀ index vBet lotterryHash clear stars,
    lotteryBlock? pprev block.lottoHeader.uLottoKey = some index →
    collectBets node.network pprev.height index.item = .ok vBet →
    ({ node.toView with chainActive := pprev } : View).getLotteryHash pprev =
      .ok lotterryHash →
    node.drawEnv.readClottoData block.lottoHeader.nLottoID
      block.lottoHeader.uLottoKey = .ok clear →
    createLuckyStarMap node.drawEnv
      (node.drawEnv.hash (writeUint256 lotterryHash ++ clear)) = .ok stars →
      (∀ txout ∈ vBet, OwnsSoundBet txout) ∧ OutputPrizesFit stars vBet

/-- The bets of the block and of its draw stay within the ranges. -/
structure SoundStep
    (node : Node) (pprev : CBlockIndex) (block : CBlock) : Prop where
  bets : 0 ≤ betsOf node.network pprev block
  pool : poolOf pprev + betsOf node.network pprev block < 2 ^ 53
  draw : SoundDraw node pprev block

theorem totalValue_nonneg
    {vOuts : List CTxOut}
    (nonneg : ∀ txout ∈ vOuts, 0 ≤ txout.nValue.toInt) :
    0 ≤ totalValue vOuts := by
  apply List.sum_nonneg
  intro value member
  rcases List.mem_map.mp member with ⟨txout, inOutputs, rfl⟩
  exact nonneg txout inOutputs

/-- The draw of a sound step pays at most four fifths of the pool. -/
theorem drawLottery_of_soundDraw
    {node : Node} {snapshot : Snapshot} {pprev : CBlockIndex} {block : CBlock}
    {drawPool : Int64} {vTxOut : List CTxOut} {llRewards : Int64}
    (sound : SoundDraw node pprev block)
    (nonneg : 0 ≤ drawPool.toInt) (small : drawPool.toInt < 2 ^ 53)
    (succeeded :
      (during node snapshot pprev).toView.drawLottery drawPool pprev
        block.lottoHeader.nLottoID block.lottoHeader.uLottoKey =
          .ok (vTxOut, llRewards)) :
    llRewards.toInt = totalValue vTxOut ∧ 0 ≤ totalValue vTxOut ∧
      totalValue vTxOut ≤ drawPool.toInt * 8 / 10 := by
  have nothing :
      ∀ drawn : List CTxOut × Int64, drawn = ([], 0) →
        drawn.2.toInt = totalValue drawn.1 ∧ 0 ≤ totalValue drawn.1 ∧
          totalValue drawn.1 ≤ drawPool.toInt * 8 / 10 := by
    rintro _ rfl
    have available : 0 ≤ drawPool.toInt * 8 / 10 := by omega
    exact ⟨rfl, le_refl (0 : Int), available⟩
  rw [View.drawLottery] at succeeded
  cases found : lotteryBlock? pprev block.lottoHeader.uLottoKey with
  | none =>
      simp only [found] at succeeded
      cases succeeded
      exact nothing _ rfl
  | some index =>
      simp only [found, bind_eq_ok] at succeeded
      rcases succeeded with
        ⟨vBet, collected, lotterryHash, seed, succeeded⟩
      split_ifs at succeeded
      · cases succeeded
        exact nothing _ rfl
      simp only [bind_eq_ok, CLotto.ofKey] at succeeded
      rcases succeeded with ⟨alotto, ⟨clear, read, built⟩, paid⟩
      have facts :
          ∃ vOuts rewards,
            CLotto.getReWardOutput alotto = .ok (vOuts, rewards) ∧
            (∀ txout ∈ vOuts, 0 ≤ txout.nValue.toInt) ∧
            rewards.toInt = totalValue vOuts ∧
            totalValue vOuts ≤ drawPool.toInt * 8 / 10 := by
        by_cases zero :
            node.drawEnv.hash (writeUint256 lotterryHash ++ clear) = 0
        · have noBets : alotto = ⟨[], drawPool⟩ := by
            rw [CLotto.ofHash] at built
            simp only [during, zero, if_true] at built
            cases built
            rfl
          rw [noBets]
          apply getReWardOutput_ok (by simp) _ nonneg small
          intro rt
          exact show 0 + roundingSlack * 0 < 2 ^ 63 by decide
        · have parsed := built
          rw [CLotto.ofHash] at parsed
          simp only [during, zero, if_false, bind_eq_ok] at parsed
          rcases parsed with ⟨stars, drawn, -⟩
          rcases sound index vBet lotterryHash clear stars found collected
              seed read drawn with ⟨owned, fits⟩
          rcases draw_ok drawn zero owned fits nonneg small with
            ⟨lotto, vOuts, rewards, same, paidThere, positive, equal, bound⟩
          simp only [during, same] at built
          cases built
          exact ⟨vOuts, rewards, paidThere, positive, equal, bound⟩
      rcases facts with ⟨vOuts, rewards, paidThere, positive, equal, bound⟩
      rw [paidThere] at paid
      cases paid
      exact ⟨equal, totalValue_nonneg positive, bound⟩

/-! ## One block -/

section Step

variable {node : Node} {snapshot : Snapshot} {pprev : CBlockIndex}
  {block : CBlock} {before : CCoinsView} {state : ConnectState}
  {coinBaseTx : CTransaction} {others : List CTransaction}
  {subsidy : CTxOut} {prizes : List CTxOut}

theorem prizesOf_connected
    (connected :
      Connected (during node snapshot pprev) before pprev block state
        coinBaseTx others subsidy prizes) :
    prizesOf block = totalValue prizes := by
  rw [prizesOf, coinBaseOutputs, connected.checked.vtx]
  simp only [connected.outputs, List.tail_cons]

/-- A sound step pays its prizes out of the pool. -/
theorem pool_of_connected
    (connected :
      Connected (during node snapshot pprev) before pprev block state
        coinBaseTx others subsidy prizes)
    (sound : SoundStep node pprev block)
    (nonneg : 0 ≤ poolOf pprev) :
    block.lottoHeader.llPool.toInt =
        poolOf pprev + betsOf node.network pprev block - prizesOf block ∧
      0 ≤ prizesOf block ∧ 10 * prizesOf block ≤ 8 * poolOf pprev := by
  rcases connected.lotto.pool with ⟨nCurBetValue, value, accepted⟩
  have bets : betsOf node.network pprev block = nCurBetValue.toInt := by
    have same :
        getLottoValueFromBlock node.network pprev.height block =
          .ok nCurBetValue := value
    rw [betsOf, same]
  have betsNonneg := sound.bets
  have small := sound.pool
  rw [prizesOf_connected connected, bets]
  rw [bets] at betsNonneg small
  rw [poolOf] at nonneg small ⊢
  have sum :
      (pprev.item.lottoHeader.llPool + nCurBetValue).toInt =
        pprev.item.lottoHeader.llPool.toInt + nCurBetValue.toInt :=
    toInt_add_of_bounds (by omega) (by omega)
  split_ifs at accepted
  · rcases accepted.paid with ⟨coinBase, rest, first, lottoTxOut, llRewards,
      vtx, vout, drawn, pool⟩
    have outputs : lottoTxOut = prizes := by
      rw [connected.checked.vtx] at vtx
      cases vtx
      rw [connected.outputs] at vout
      cases vout
      rfl
    rw [outputs] at drawn
    rcases drawLottery_of_soundDraw sound.draw nonneg (by omega) drawn with
      ⟨rewards, prizesNonneg, bound⟩
    have difference :
        block.lottoHeader.llPool =
          pprev.item.lottoHeader.llPool + nCurBetValue - llRewards := by
      rw [← pool, Int64.add_sub_cancel]
    refine ⟨?_, prizesNonneg, by omega⟩
    rw [difference, toInt_sub_of_bounds (by omega) (by omega), sum, rewards]
  · rcases accepted.unpaid with ⟨coinBase, rest, first, vtx, vout⟩
    have outputs : prizes = [] := by
      rw [connected.checked.vtx] at vtx
      cases vtx
      rw [connected.outputs] at vout
      cases vout
      rfl
    rw [outputs, accepted.pool, sum]
    have zero : totalValue [] = 0 := rfl
    rw [zero]
    exact ⟨by omega, le_rfl, by omega⟩

/-- The first output and the prizes are what the coinbase pays. -/
theorem coinBase_of_connected
    (connected :
      Connected (during node snapshot pprev) before pprev block state
        coinBaseTx others subsidy prizes) :
    totalValue (coinBaseOutputs block) ≤
      (getBlockValue (pprev.height + 1) state.nFees).toInt +
        prizesOf block := by
  have amount := Int64.le_iff_toInt_le.mp connected.amount
  have outputs : coinBaseOutputs block = subsidy :: prizes := by
    rw [coinBaseOutputs, connected.checked.vtx]
    exact connected.outputs
  rw [prizesOf_connected connected, outputs, totalValue, List.map_cons,
    List.sum_cons, totalValue]
  omega

end Step

/-! ## Whole chains -/

/-- Every step of a chain is sound. -/
def SoundChain (node : Node) (tip : CBlockIndex) : Prop :=
  ∀ nHeight pprev block,
    tip.at? (nHeight + 1) = some (.child pprev block) →
      SoundStep node pprev block

theorem SoundChain.of_at?
    {node : Node} {tip index : CBlockIndex} {nHeight : Nat}
    (sound : SoundChain node tip) (found : tip.at? nHeight = some index) :
    SoundChain node index := by
  intro other pprev block inside
  have height := (Lineage.at?_height found).1
  have below := (Lineage.at?_height inside).2
  apply sound other pprev block
  rw [← Lineage.at?_of_at? found (by omega)]
  exact inside

/-- The pool is what came in minus what was paid, and is not negative. -/
theorem pool_of_accepted
    {node : Node} {tip : CBlockIndex} {view : CCoinsView}
    (chain : Accepted node (fun _ => True) tip view)
    (sound : SoundChain node tip) :
    poolOf tip =
        genesisPool + betsSoFar node.network tip - prizesSoFar tip ∧
      0 ≤ poolOf tip := by
  induction tip generalizing view with
  | root block =>
      cases chain with
      | genesis _ header _ =>
          rw [poolOf, Lineage.item, header, betsSoFar, prizesSoFar,
            genesisPool]
          exact ⟨by omega, by decide⟩
  | child pprev block inductionHypothesis =>
      rcases chain.connected with
        ⟨before, snapshot, _, _, _, _, _, earlier, -, connected⟩
      have atParent :
          (Lineage.child pprev block).at? pprev.height = some pprev := by
        rw [Lineage.at?_child_of_le le_rfl, Lineage.at?_self]
      have step := sound pprev.height pprev block (Lineage.at?_self _)
      rcases inductionHypothesis earlier (sound.of_at? atParent) with
        ⟨accounts, nonneg⟩
      rcases pool_of_connected connected step nonneg with
        ⟨pool, prizesNonneg, fourFifths⟩
      have betsNonneg := step.bets
      rw [betsSoFar, prizesSoFar, poolOf, Lineage.item, pool, accounts]
      rw [accounts] at nonneg fourFifths
      exact ⟨by omega, by omega⟩

/--
The accounts of every accepted chain whose steps are all sound.
-/
theorem poolAccounts_of_sound
    (node : Node) (tip : CBlockIndex) (view : CCoinsView)
    (chain : Accepted node (fun _ => True) tip view)
    (sound : SoundChain node tip) :
    PoolAccounts node tip := by
  constructor
  · intro nHeight index found
    rcases chain.of_at? found with ⟨_, upToIndex⟩
    exact (pool_of_accepted upToIndex (sound.of_at? found)).1
  · intro nHeight pprev block found
    rcases chain.of_at? found with ⟨_, upToBlock⟩
    have soundBlock := sound.of_at? found
    have blockPool := pool_of_accepted upToBlock soundBlock
    have step := sound nHeight pprev block found
    have atParent :
        (Lineage.child pprev block).at? pprev.height = some pprev := by
      rw [Lineage.at?_child_of_le le_rfl, Lineage.at?_self]
    cases upToBlock with
    | connect earlier _ _ _ _ fresh accepted =>
        have parentPool :=
          pool_of_accepted earlier (soundBlock.of_at? atParent)
        have freshThen :
            ∀ snapshot,
              (during node snapshot pprev).blockHash block ≠
                (during node snapshot pprev).hashGenesisBlock :=
          fun _ => fresh
        constructor
        · intro before snapshot next state _ connects transactions
          rcases connected_of_connectBlock (freshThen snapshot) connects with
            ⟨found, _, _, _, _, connected⟩
          have sameState := connected.transactions
          rw [transactions] at sameState
          cases sameState
          have paid := coinBase_of_connected connected
          have pool := (pool_of_connected connected step parentPool.2).1
          omega
        · exact blockPool.2
        · rcases connected_of_connectBlock (freshThen _) accepted with
            ⟨_, _, _, _, _, connected⟩
          exact (pool_of_connected connected step parentPool.2).2.2

/-! ## Chains with one draw -/

/-- A draw environment whose hash counts in a circle of sixteen. -/
def circleEnv : DrawEnv where
  hash := fun bytes =>
    BitVec.ofNat 256 (256 + (leValue (bytes.take 1) + 1) % 16)
  readClottoData := fun _ _ => pure []
  bound := 20

/-- A ticket with the numbers that `circleEnv` draws from the first hash. -/
def circleTicket : List UInt8 :=
  1 :: List.replicate 20 7 ++ [3, 4, 5, 6, 7, gSplitFlag, 8, 9]

/-- The coinbases that the bet is paid with. -/
def betHeights : List Nat :=
  [1, 2, 3, 4, 5, 6, 7, 8, 9]

def beforeBet : CBlockIndex :=
  quietChain 110 (.root genesisBlock)

/-- Block 111, with a bet of a given value. -/
def betIndex (nValue : Int64) : CBlockIndex :=
  .child beforeBet
    (betBlock beforeBet nValue betHeights
      [templateOutput nValue circleTicket])

def beforeDraw (nValue : Int64) : CBlockIndex :=
  quietChain 119 (betIndex nValue)

def drawHeader (nValue llRewards : Int64) : CLottoHeader :=
  { quietHeader (200000000000000 + nValue - llRewards) with
    nLottoID := 2
    uLottoKey := 2 }

/-- Block 231, which draws the bet and pays one prize. -/
def drawTip (nValue : Int64) (prize : CTxOut) : CBlockIndex :=
  .child (beforeDraw nValue)
    (mintedBlock (beforeDraw nValue) (drawHeader nValue prize.nValue) [prize]
      [])

/-- The bet is accepted and the draw pays the prize. -/
structure PaidBet (nValue : Int64) (prize : CTxOut) : Prop where
  placeable :
    Placeable 110 betHeights [templateOutput nValue circleTicket] nValue nValue
  collected :
    collectBetsFromTxs .main 230
        [spender betHeights [templateOutput nValue circleTicket]] [] =
      .ok [templateOutput nValue circleTicket]
  paid :
    (do
      let alotto ← CLotto.ofKey circleEnv hashBitcoinStartBlock 2 2
        (200000000000000 + nValue) [templateOutput nValue circleTicket]
      CLotto.getReWardOutput alotto) = .ok ([prize], prize.nValue)
  checked : checkTransaction (mintedCoinBase 231 [prize]) = .ok ()
  size : prize.scriptPubKey.length ≤ 100
  sigOps :
    getLegacySigOpCount (mintedCoinBase 231 [prize]) ≤ MAX_BLOCK_SIGOPS

theorem height_betIndex (nValue : Int64) : (betIndex nValue).height = 111 := by
  rw [betIndex, Lineage.height_child, beforeBet, height_quietChain,
    Lineage.height_root]

theorem height_beforeDraw (nValue : Int64) :
    (beforeDraw nValue).height = 230 := by
  rw [beforeDraw, height_quietChain, height_betIndex]

theorem llPool_beforeBet :
    beforeBet.item.lottoHeader.llPool = 200000000000000 := by
  rw [beforeBet, llPool_quietChain]
  decide

theorem llPool_betIndex (nValue : Int64) :
    (betIndex nValue).item.lottoHeader.llPool = 200000000000000 + nValue := by
  have bet :
      (betIndex nValue).item.lottoHeader.llPool =
        beforeBet.item.lottoHeader.llPool + nValue := rfl
  rw [bet, llPool_beforeBet]

theorem llPool_beforeDraw (nValue : Int64) :
    (beforeDraw nValue).item.lottoHeader.llPool =
      200000000000000 + nValue := by
  rw [beforeDraw, llPool_quietChain, llPool_betIndex]

section Draw

variable {nValue : Int64} {prize : CTxOut}

theorem PaidBet.quiet (bet : PaidBet nValue prize) :
    ∃ view, Quiet circleEnv (fun _ => True) (beforeDraw nValue) view :=
  quiet_chainWithBet circleEnv 110 119 bet.placeable (by decide) (by decide)
    (by decide)

theorem lotteryBlock?_beforeDraw :
    lotteryBlock? (beforeDraw nValue) 2 = some (betIndex nValue) := by
  refine lotteryBlock?_eq_some.mpr ⟨?_, by decide, ?_⟩
  · rw [height_beforeDraw]
    decide
  · have atBet := Lineage.at?_self (betIndex nValue)
    rw [height_betIndex] at atBet
    rw [height_beforeDraw, beforeDraw,
      at?_quietChain 119 (by rw [height_betIndex])]
    exact atBet

theorem getLotteryHash_beforeDraw
    {view : View} (active : view.chainActive = beforeDraw nValue) :
    view.getLotteryHash (beforeDraw nValue) = .ok hashBitcoinStartBlock := by
  have atSeed :
      (beforeDraw nValue).at? 126 =
        some (quietChain 15 (betIndex nValue)) := by
    have offset :=
      at?_quietChain_add (betIndex nValue) (show 15 ≤ 119 by decide)
    rw [height_betIndex] at offset
    exact offset
  rw [View.getLotteryHash, height_beforeDraw, if_neg (by decide), active]
  simp only [show seedHeight 230 = 126 by decide, atSeed]
  rfl

/-- The draw of block 231 from its parent. -/
theorem PaidBet.drawLottery
    (bet : PaidBet nValue prize) (snapshot : Snapshot) :
    (during (countingNode circleEnv) snapshot
        (beforeDraw nValue)).toView.drawLottery (200000000000000 + nValue)
        (beforeDraw nValue) 2 2 =
      .ok ([prize], prize.nValue) := by
  have collected :
      collectBets .main (beforeDraw nValue).height (betIndex nValue).item =
        .ok [templateOutput nValue circleTicket] := by
    rw [height_beforeDraw]
    exact bet.collected
  simp only [View.drawLottery, lotteryBlock?_beforeDraw, bind_eq_ok]
  exact ⟨_, collected, hashBitcoinStartBlock, getLotteryHash_beforeDraw rfl,
    bet.paid⟩

theorem PaidBet.checkPool (bet : PaidBet nValue prize) :
    (during (countingNode circleEnv) (snapshotOf startChain)
      (beforeDraw nValue)).toView.checkPool (beforeDraw nValue)
        (mintedBlock (beforeDraw nValue) (drawHeader nValue prize.nValue)
          [prize] []) = .ok none := by
  have key :
      (during (countingNode circleEnv) (snapshotOf startChain)
        (beforeDraw nValue)).toView.getLotteryKey (beforeDraw nValue).height =
        (2, some 2) := by
    rw [height_beforeDraw]
    rfl
  have draws :
      2 * nIntervalLottery ≤ (beforeDraw nValue).height ∧
        (2 : Uint256) ≠ 0 := by
    rw [height_beforeDraw]
    decide
  have header :
      (mintedBlock (beforeDraw nValue) (drawHeader nValue prize.nValue)
        [prize] []).lottoHeader = drawHeader nValue prize.nValue := rfl
  have headerKey : (drawHeader nValue prize.nValue).uLottoKey = 2 := rfl
  have headerID : (drawHeader nValue prize.nValue).nLottoID = 2 := rfl
  have pool :
      (drawHeader nValue prize.nValue).llPool + prize.nValue =
        200000000000000 + nValue + 0 := by
    rw [drawHeader, quietHeader, Int64.add_zero, Int64.sub_add_cancel]
  rw [View.checkPool, getLottoValueFromBlock_minted, bind_eq_ok]
  refine ⟨0, rfl, ?_⟩
  rw [header, headerKey, if_pos draws, View.checkDraw, bind_eq_ok]
  refine ⟨mintedCoinBase ((beforeDraw nValue).height + 1) [prize], rfl, ?_⟩
  rw [bind_eq_ok]
  refine ⟨[prize], rfl, ?_⟩
  simp only [key, header, headerKey, headerID, llPool_beforeDraw]
  rw [if_neg (by simp), bind_eq_ok]
  refine ⟨_, bet.drawLottery (snapshotOf startChain), ?_⟩
  rw [if_neg (by simpa using pool), if_neg (by simp)]
  rfl

theorem PaidBet.mintable
    {view : CCoinsView} (bet : PaidBet nValue prize)
    (quiet : Quiet circleEnv (fun _ => True) (beforeDraw nValue) view) :
    Mintable circleEnv (snapshotOf startChain) (beforeDraw nValue) view
      (drawHeader nValue prize.nValue) [prize] [] := by
  have small : (beforeDraw nValue).height + 1 < 2 ^ 31 := by
    rw [height_beforeDraw]
    decide
  have small32 : (beforeDraw nValue).height + 1 < 2 ^ 32 :=
    lt_trans small (by decide)
  have near :
      ¬ 1 < Int32.ofInt BTC_START_HIGHT -
        CLottoHeader.getLastBitcoinHeight
          (beforeDraw nValue).item.lottoHeader := by
    rw [quiet.last]
    decide
  constructor
  case small => exact small32
  case late => decide
  case size =>
    have bound :
        (mintedBlock (beforeDraw nValue) (drawHeader nValue prize.nValue)
          [prize] []).serialize.length ≤
          150 + 36 * 1 +
            (26 + 51 + (18 + (17 + prize.scriptPubKey.length + 0)) + 0) :=
      length_block _
    have script := bet.size
    rw [MAX_BLOCK_SIZE]
    omega
  case number => decide
  case regular => simp
  case transactions =>
    intro tx member
    rw [List.mem_singleton.mp member, height_beforeDraw]
    exact bet.checked
  case distinct => simp
  case sigOps =>
    rw [height_beforeDraw, List.map_singleton, List.sum_singleton]
    exact bet.sigOps
  case best => exact quiet.best
  case unspent =>
    intro tx member
    rw [List.mem_singleton.mp member, lockTimeHash_mintedCoinBase _ small32]
    exact quiet.unused ((beforeDraw nValue).height + 1) (by omega) small
  case lotto =>
    exact checkLottoResult_minted small32
      (checkBitcoinPart_start _ _ _ rfl near) bet.checkPool

theorem PaidBet.accepted (bet : PaidBet nValue prize) :
    ∃ view, Accepted (countingNode circleEnv) (fun _ => True)
      (drawTip nValue prize) view := by
  rcases bet.quiet with ⟨before, quiet⟩
  exact ⟨_, (bet.mintable quiet).accepted rfl (Int64.le_refl _) quiet.chain
    trivial⟩

end Draw

/-- The output that pays a prize to the address of `circleTicket`. -/
def prizeOutput (nValue : Int64) : CTxOut :=
  ⟨nValue, [OP_DUP, OP_HASH160, 20] ++ List.replicate 20 7 ++
    [OP_EQUALVERIFY, OP_CHECKSIG]⟩

/-- A bet whose first prize is `2 ^ 64` plus what it pays. -/
theorem paidBet_large :
    PaidBet 87842738446236 (prizeOutput 231000000008384) := by
  constructor
  case placeable => constructor <;> decide +kernel
  all_goals decide +kernel

/-- A chain in which one block pays more than four fifths of the pool. -/
theorem largeDraw_overpays :
    ¬ ∀ (node : Node) (tip : CBlockIndex) (view : CCoinsView),
      Accepted node (fun _ => True) tip view → PoolAccounts node tip := by
  intro always
  rcases paidBet_large.accepted with ⟨view, chain⟩
  have accounts := always _ _ view chain
  have block :=
    accounts.blocks (beforeDraw 87842738446236).height _ _
      (Lineage.at?_self (drawTip 87842738446236 _))
  have fourFifths := block.fourFifths
  rw [poolOf, llPool_beforeDraw] at fourFifths
  exact absurd fourFifths (by decide)

theorem paidBet_small : PaidBet 200000 (prizeOutput 42000000000) := by
  constructor
  case placeable => constructor <;> decide +kernel
  all_goals decide +kernel

/-! ## A chain with a sound draw -/

theorem SoundChain.child
    {node : Node} {pprev : CBlockIndex} {block : CBlock}
    (sound : SoundChain node pprev) (step : SoundStep node pprev block) :
    SoundChain node (.child pprev block) := by
  intro nHeight parent other found
  rcases Nat.lt_or_ge pprev.height (nHeight + 1) with above | below
  · have inside := (Lineage.at?_height found).2
    rw [Lineage.height_child] at inside
    have top : nHeight + 1 = (Lineage.child pprev block).height := by
      rw [Lineage.height_child]
      omega
    rw [top, Lineage.at?_self] at found
    cases found
    exact step
  · rw [Lineage.at?_child_of_le below] at found
    exact sound nHeight parent other found

theorem soundDraw_of_zero
    {node : Node} {pprev : CBlockIndex} {block : CBlock}
    (key : block.lottoHeader.uLottoKey = 0) : SoundDraw node pprev block := by
  intro index _ _ _ _ drawn
  exact absurd key (lotteryBlock?_eq_some.mp drawn).2.1

theorem soundChain_quietChain
    {drawEnv : DrawEnv} {tip : CBlockIndex} (count : Nat)
    (sound : SoundChain (countingNode drawEnv) tip)
    (small : poolOf tip < 2 ^ 53) :
    SoundChain (countingNode drawEnv) (quietChain count tip) := by
  induction count with
  | zero => exact sound
  | succ count inductionHypothesis =>
      apply inductionHypothesis.child
      have bets :
          betsOf (countingNode drawEnv).network (quietChain count tip)
            (quietBlock (quietChain count tip)) = 0 := rfl
      have pool : poolOf (quietChain count tip) = poolOf tip := by
        rw [poolOf, llPool_quietChain, poolOf]
      constructor
      · exact le_of_eq bets.symm
      · rw [bets, pool]
        omega
      · exact soundDraw_of_zero rfl

theorem soundDraw_small :
    SoundDraw (countingNode circleEnv) (beforeDraw 200000)
      (mintedBlock (beforeDraw 200000) (drawHeader 200000 42000000000)
        [prizeOutput 42000000000] []) := by
  intro index vBet lotterryHash clear stars found collected seed read drawn
  have sameIndex : betIndex 200000 = index :=
    Option.some.inj (lotteryBlock?_beforeDraw.symm.trans found)
  rw [← sameIndex, height_beforeDraw] at collected
  have sameBets :
      .ok [templateOutput 200000 circleTicket] = Except.ok vBet :=
    paidBet_small.collected.symm.trans collected
  have sameSeed : .ok hashBitcoinStartBlock = Except.ok lotterryHash :=
    (getLotteryHash_beforeDraw rfl).symm.trans seed
  cases sameBets
  cases sameSeed
  cases read
  constructor
  · intro txout member
    rw [List.mem_singleton.mp member]
    decide
  · intro rt
    have stars_eq :
        createLuckyStarMap circleEnv
          (circleEnv.hash (writeUint256 hashBitcoinStartBlock ++ [])) =
            .ok stars := drawn
    have fits :
        Except.map
          (fun numbers =>
            decide (outputPrize numbers rt
                (templateOutput 200000 circleTicket) + roundingSlack < 2 ^ 63))
          (createLuckyStarMap circleEnv
            (circleEnv.hash (writeUint256 hashBitcoinStartBlock ++ []))) =
          .ok true := by
      cases rt <;> decide
    rw [stars_eq] at fits
    have bound := of_decide_eq_true (Except.ok.inj fits)
    rw [List.map_singleton, List.sum_singleton, List.length_singleton,
      Nat.mul_one]
    exact bound

theorem soundChain_small :
    SoundChain (countingNode circleEnv)
      (drawTip 200000 (prizeOutput 42000000000)) := by
  have genesis :
      SoundChain (countingNode circleEnv) (.root genesisBlock) := by
    intro nHeight pprev block found
    have low := (Lineage.at?_height found).2
    rw [Lineage.height_root] at low
    omega
  have bets :
      betsOf .main beforeBet
        (betBlock beforeBet 200000 betHeights
          [templateOutput 200000 circleTicket]) = 200000 := by
    have height : beforeBet.height = 110 := by
      rw [beforeBet, height_quietChain, Lineage.height_root]
    rw [betsOf, height, BetChain.betBlock,
      getLottoValueFromBlock_bet paidBet_small.placeable.bets]
    decide
  have betStep :
      SoundStep (countingNode circleEnv) beforeBet
        (betBlock beforeBet 200000 betHeights
          [templateOutput 200000 circleTicket]) := by
    have network : (countingNode circleEnv).network = .main := rfl
    constructor
    · rw [network, bets]
      decide
    · rw [network, bets, poolOf, llPool_beforeBet]
      decide
    · exact soundDraw_of_zero rfl
  have betPool : poolOf (betIndex 200000) < 2 ^ 53 := by
    rw [poolOf, llPool_betIndex]
    decide
  have drawStep :
      SoundStep (countingNode circleEnv) (beforeDraw 200000)
        (mintedBlock (beforeDraw 200000) (drawHeader 200000 42000000000)
          [prizeOutput 42000000000] []) := by
    have noBets :
        betsOf (countingNode circleEnv).network (beforeDraw 200000)
          (mintedBlock (beforeDraw 200000) (drawHeader 200000 42000000000)
            [prizeOutput 42000000000] []) = 0 := rfl
    constructor
    · exact le_of_eq noBets.symm
    · rw [noBets, poolOf, llPool_beforeDraw]
      decide
    · exact soundDraw_small
  have quiet : SoundChain (countingNode circleEnv) beforeBet :=
    soundChain_quietChain 110 genesis (by decide)
  have upToDraw : SoundChain (countingNode circleEnv) (beforeDraw 200000) :=
    soundChain_quietChain 119 (quiet.child betStep) betPool
  exact upToDraw.child drawStep

/-- The accounts of the chain that draws a small bet. -/
theorem poolAccounts_smallDraw :
    PoolAccounts (countingNode circleEnv)
      (drawTip 200000 (prizeOutput 42000000000)) := by
  rcases paidBet_small.accepted with ⟨view, chain⟩
  exact poolAccounts_of_sound _ _ view chain soundChain_small

end DSValue.Consensus.PoolAccounting

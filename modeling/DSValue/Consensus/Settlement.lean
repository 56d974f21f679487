import DSValue.Consensus.BetChain
import DSValue.Consensus.Drawable

/-!
# When bets are drawn

The bets of block `b` are drawn by block `b + 120` and by no other block.
That block may name a zero key and skip the draw, when the height of its
parent is a multiple of the interval or its parent names no key of its own.
The seed of the draw comes from a block between `b + 6` and `b + 65`.
-/

namespace DSValue.Consensus.Settlement

open DSValue.Lib
open DSValue.Core.Serialize
open DSValue.Core.Header
open DSValue.Core.Transaction
open DSValue.Script.Scan
open DSValue.Consensus.TxOut
open DSValue.Consensus.CheckLottoResult
open DSValue.Consensus.CheckBlock
open DSValue.Consensus.ConnectBlock
open DSValue.Consensus.QuietChain
open DSValue.Consensus.BetChain
open DSValue.Consensus.Drawable (countingEnv templateBet)

/-! ## Bets and draws -/

/-- An output of a block that is a valid bet, whatever the height. -/
structure BetOutput
    (network : Network) (block : CBlock) (tx : CTransaction) (nPos : Nat)
    (txout : CTxOut) : Prop where
  inBlock : tx ∈ block.vtx
  regular : tx.isCoinBase = false
  position : tx.vout[nPos]? = some txout
  valid : ∀ tipHeight, acceptsBet network tipHeight txout = true

/-- The block on top of `pprev` draws the bets of an index, this one included. -/
structure IncludedInDraw
    (network : Network) (pprev : CBlockIndex) (block : CBlock)
    (betIndex : CBlockIndex) (txout : CTxOut) : Prop where
  drawn : lotteryBlock? pprev block.lottoHeader.uLottoKey = some betIndex
  collected :
    ∃ vBet, collectBets network pprev.height betIndex.item = .ok vBet ∧
      txout ∈ vBet

/-- The seed of the draw in block `b + 120`. -/
theorem seedHeight_bounds (b : Nat) :
    b + 6 ≤ seedHeight (b + 119) ∧ seedHeight (b + 119) ≤ b + 65 := by
  rw [seedHeight, nIntervalLottery, nLottoStep]
  omega

/-- A valid bet is collected by every draw of its block. -/
theorem mem_collectBets
    {network : Network} {tipHeight : Nat} {block : CBlock}
    {coinBaseTx tx : CTransaction} {others : List CTransaction}
    {nPos : Nat} {txout : CTxOut} {vBet : List CTxOut}
    (checked : Checked block coinBaseTx others)
    (bet : BetOutput network block tx nPos txout)
    (collected : collectBets network tipHeight block = .ok vBet) :
    txout ∈ vBet := by
  have accepted := bet.valid tipHeight
  have read : readable txout = true := by
    simp only [acceptsBet, Bool.and_eq_true] at accepted
    simp only [readable, decide_eq_true_eq]
    intro unreadable
    rw [unreadable] at accepted
    exact Bool.false_ne_true accepted.2
  have isPoolBet : IsPoolBet network tipHeight tx.vout nPos := by
    refine ⟨nPos, le_rfl, ⟨txout, bet.position, accepted⟩, ?_, txout,
      bet.position, read⟩
    intro between _ after within
    omega
  have inOthers : tx ∈ block.vtx.tail := by
    have inBlock := bet.inBlock
    rw [checked.vtx] at inBlock ⊢
    rcases List.mem_cons.mp inBlock with isCoinBase | inTail
    · have regular := bet.regular
      rw [isCoinBase, checked.coinBase] at regular
      exact absurd regular (by decide)
    · exact inTail
  exact (mem_collectBetsFromTxs_iff collected).mpr
    (Or.inr ⟨tx, inOthers, bet.regular, nPos, isPoolBet, bet.position⟩)

/-! ## Draws along a chain -/

section Chain

variable {node : Node} {admissible : Snapshot → Prop}
  {tip pprev betIndex : CBlockIndex} {view : CCoinsView} {block : CBlock}
  {b nHeight : Nat} {txout : CTxOut}

theorem pprev_of_at?
    (nHeight : Nat)
    (found : tip.at? (nHeight + 1) = some (.child pprev block)) :
    tip.at? nHeight = some pprev ∧ pprev.height = nHeight := by
  have parent := Lineage.pprev?_of_at? found
  have height := (Lineage.at?_height found).1
  rw [Lineage.height_child] at height
  exact ⟨parent.symm, Nat.succ_inj.mp height⟩

/-- Only block `b + 120` draws the bets of block `b`. -/
theorem height_of_includedInDraw
    (atBet : tip.at? b = some betIndex)
    (atDraw : tip.at? nHeight = some (.child pprev block))
    (included :
      IncludedInDraw node.network pprev block betIndex txout) :
    nHeight = b + 120 ∧ block.lottoHeader.uLottoKey ≠ 0 := by
  rcases lotteryBlock?_eq_some.mp included.drawn with
    ⟨high, nonzero, ancestor⟩
  have betHeight := (Lineage.at?_height atBet).1
  have drawHeight := (Lineage.at?_height atDraw).1
  have ancestorHeight := (Lineage.at?_height ancestor).1
  rw [Lineage.height_child] at drawHeight
  exact ⟨by omega, nonzero⟩

/-- What a draw that succeeds has read. -/
theorem reads_of_drawLottery
    {lottoView : View} {drawPool : Int64} {pindexPrev index : CBlockIndex}
    {nID : Int32} {uLottoKey : Uint256} {drawn : List CTxOut × Int64}
    (found : lotteryBlock? pindexPrev uLottoKey = some index)
    (succeeded :
      lottoView.drawLottery drawPool pindexPrev nID uLottoKey = .ok drawn) :
    (∃ vBet,
      collectBets lottoView.network lottoView.chainActive.height index.item =
        .ok vBet) ∧
      ∃ lotterryHash, lottoView.getLotteryHash pindexPrev = .ok lotterryHash := by
  simp only [View.drawLottery, found, bind_eq_ok] at succeeded
  rcases succeeded with ⟨vBet, collected, lotterryHash, seed, -⟩
  exact ⟨⟨vBet, collected⟩, lotterryHash, seed⟩

/-- The seed is the last Bitcoin hash of the block at `seedHeight`. -/
theorem seed_of_getLotteryHash
    {lottoView : View} {pIndex : CBlockIndex} {lotterryHash : Uint256}
    (deep : nIntervalLottery ≤ pIndex.height)
    (seed : lottoView.getLotteryHash pIndex = .ok lotterryHash) :
    ∃ seedIndex,
      lottoView.chainActive.at? (seedHeight pIndex.height) =
        some seedIndex ∧
      lotterryHash =
        CLottoHeader.getLastBitcoinHash seedIndex.item.lottoHeader := by
  rw [View.getLotteryHash, if_neg (Nat.not_lt.mpr deep)] at seed
  split at seed
  · cases seed
  rename_i seedIndex atSeed
  split at seed
  · cases seed
  rename_i entry last
  cases seed
  exact ⟨seedIndex, atSeed, by rw [CLottoHeader.getLastBitcoinHash, last]⟩

/-- Block `b + 120` draws the bets of block `b` unless its key is zero. -/
theorem includedInDraw_of_key
    {tx : CTransaction} {nPos : Nat} {coinBaseTx : CTransaction}
    {others : List CTransaction} {snapshot : Snapshot}
    {nCurBetValue : Int64}
    (checked : Checked betIndex.item coinBaseTx others)
    (bet : BetOutput node.network betIndex.item tx nPos txout)
    (atBet : pprev.at? b = some betIndex)
    (height : pprev.height = b + 119)
    (positive : 1 ≤ b)
    (key : block.lottoHeader.uLottoKey ≠ 0)
    (accepted :
      DrawAccepted (during node snapshot pprev).toView pprev block
        nCurBetValue) :
    IncludedInDraw node.network pprev block betIndex txout ∧
      ∃ seedIndex,
        pprev.at? (seedHeight pprev.height) = some seedIndex ∧
        (during node snapshot pprev).toView.getLotteryHash pprev =
          .ok (CLottoHeader.getLastBitcoinHash seedIndex.item.lottoHeader) := by
  have drawn :
      lotteryBlock? pprev block.lottoHeader.uLottoKey = some betIndex := by
    refine lotteryBlock?_eq_some.mpr ⟨by omega, key, ?_⟩
    rw [height, Nat.add_sub_cancel]
    exact atBet
  rcases accepted.paid with ⟨_, _, _, _, _, _, _, succeeded, _⟩
  rcases reads_of_drawLottery drawn succeeded with
    ⟨⟨vBet, collected⟩, lotterryHash, seed⟩
  have deep : nIntervalLottery ≤ pprev.height := by
    rw [nIntervalLottery]
    omega
  rcases seed_of_getLotteryHash deep seed with ⟨seedIndex, atSeed, rfl⟩
  exact ⟨⟨drawn, vBet, collected, mem_collectBets checked bet collected⟩,
    seedIndex, atSeed, seed⟩

end Chain

/-- The draw of a bet of block `b`, if block `b + 120` performs one. -/
def DrawnAtMostOnce
    (node : Node) (tip : CBlockIndex) (b : Nat) (betIndex : CBlockIndex)
    (txout : CTxOut) : Prop :=
  ∃ pprev block,
    tip.at? (b + 120) = some (.child pprev block) ∧
    (block.lottoHeader.uLottoKey ≠ 0 →
      IncludedInDraw node.network pprev block betIndex txout ∧
      ∃ seedIndex snapshot,
        tip.at? (seedHeight pprev.height) = some seedIndex ∧
        b ≤ seedIndex.height ∧ seedIndex.height ≤ b + 65 ∧
        (during node snapshot pprev).toView.getLotteryHash pprev =
          .ok (CLottoHeader.getLastBitcoinHash seedIndex.item.lottoHeader)) ∧
    (block.lottoHeader.uLottoKey = 0 →
      (b + 119) % nIntervalLottery = 0 ∨
        pprev.item.lottoHeader.uLottoKey = 0 ∨
        pprev.item.lottoHeader.uLottoKey = 1) ∧
    ∀ nHeight other otherBlock,
      tip.at? nHeight = some (.child other otherBlock) →
      IncludedInDraw node.network other otherBlock betIndex txout →
        nHeight = b + 120 ∧ otherBlock.lottoHeader.uLottoKey ≠ 0

/--
A valid bet of block `b` is drawn in block `b + 120` and nowhere else, unless
that block names a zero key, which only some parents allow.
-/
theorem bet_drawn_at_most_once
    (node : Node) (tip : CBlockIndex) (view : CCoinsView)
    (chain : Accepted node (fun _ => True) tip view)
    (b : Nat) (later : 2 ≤ b) (deep : b + 120 ≤ tip.height)
    (betIndex : CBlockIndex) (atBet : tip.at? b = some betIndex)
    (tx : CTransaction) (nPos : Nat) (txout : CTxOut)
    (bet : BetOutput node.network betIndex.item tx nPos txout) :
    DrawnAtMostOnce node tip b betIndex txout := by
  rcases Lineage.at?_isSome deep with ⟨drawIndex, atDraw⟩
  have drawHeight := (Lineage.at?_height atDraw).1
  cases drawIndex with
  | root genesis => simp at drawHeight
  | child pprev block =>
      rcases pprev_of_at? (b + 119) atDraw with
        ⟨atParent, parentHeight⟩
      rcases chain.of_at? atDraw with ⟨_, upToDraw⟩
      rcases upToDraw.connected with
        ⟨_, snapshot, _, _, _, _, _, _, -, connected⟩
      have atBetThen : pprev.at? b = some betIndex := by
        rw [Lineage.at?_of_at? atParent (by omega)]
        exact atBet
      rcases connected.lotto.pool with ⟨nCurBetValue, -, accepted⟩
      refine ⟨pprev, block, atDraw, ?_, ?_, ?_⟩
      · intro key
        rw [if_pos ⟨by rw [parentHeight, nIntervalLottery]; omega, key⟩]
          at accepted
        rcases chain.of_at? atBet with ⟨_, upToBet⟩
        have betHeight := (Lineage.at?_height atBet).1
        cases betIndex with
        | root genesis =>
            rw [Lineage.height_root] at betHeight
            omega
        | child betParent betBlock =>
            rcases upToBet.connected with
              ⟨_, _, _, _, _, _, _, _, -, betConnected⟩
            have checked :
                Checked (Lineage.child betParent betBlock).item _ _ :=
              betConnected.checked
            rcases includedInDraw_of_key checked bet atBetThen parentHeight
                (by omega) key accepted with
              ⟨included, seedIndex, atSeed, seed⟩
            have bounds := seedHeight_bounds b
            have seedAt := (Lineage.at?_height atSeed).1
            rw [Lineage.at?_of_at? atParent (by rw [parentHeight]; omega)]
              at atSeed
            rw [parentHeight] at seedAt
            exact ⟨included, seedIndex, snapshot, atSeed, by omega, by omega,
              seed⟩
      · intro zero
        rw [if_neg (fun both => both.2 zero)] at accepted
        have allowed := accepted.key zero
        rw [parentHeight] at allowed
        exact allowed
      · intro nHeight other otherBlock atOther included
        exact height_of_includedInDraw atBet atOther included

/-! ## A bet that is skipped -/

def beforeBet : CBlockIndex :=
  quietChain 150 (.root genesisBlock)

/-- Block 151, with one bet. -/
def skippedBet : CBlockIndex :=
  .child beforeBet (betBlock beforeBet 200000 [1] [templateBet])

/-- Block 271, which has a zero key like every block before it. -/
def skippedTip : CBlockIndex :=
  quietChain 120 skippedBet

theorem placeable_templateBet :
    Placeable 150 [1] [templateBet] 200000 200000 := by
  constructor <;> decide

theorem accepted_skippedTip :
    ∃ view, Accepted (countingNode countingEnv) (fun _ => True) skippedTip
      view := by
  rcases quiet_chainWithBet countingEnv 150 120 placeable_templateBet
      (by decide) (by decide) (by decide) with ⟨view, quiet⟩
  exact ⟨view, quiet.chain⟩

theorem height_skippedBet : skippedBet.height = 151 := by
  rw [skippedBet, Lineage.height_child, beforeBet, height_quietChain]
  rfl

theorem at?_skippedBet : skippedTip.at? 151 = some skippedBet := by
  rw [skippedTip, at?_quietChain 120 (by rw [height_skippedBet]),
    ← height_skippedBet, Lineage.at?_self]

theorem betOutput_skippedBet :
    BetOutput .main skippedBet.item (spender [1] [templateBet]) 0
      templateBet := by
  constructor
  · exact List.mem_cons_of_mem _ (List.mem_singleton_self _)
  · rfl
  · rfl
  · intro tipHeight
    have scan :
        scanLotto templateBet.scriptPubKey = .found sixNumberTicket := by
      decide
    have valid :
        DSValue.Lotto.Bet.isValid sixNumberTicket templateBet.nValue =
          .ok true := by
      decide
    have pays :
        isSendPoolAdress .main templateBet.scriptPubKey = true := by
      decide
    simp only [acceptsBet, scan, valid, pays, Bool.true_or, Bool.and_self]

theorem skippedBet_drawn_at_most_once :
    DrawnAtMostOnce (countingNode countingEnv) skippedTip 151 skippedBet
      templateBet := by
  rcases accepted_skippedTip with ⟨view, chain⟩
  exact bet_drawn_at_most_once (countingNode countingEnv) skippedTip view
    chain 151 (by decide)
    (by rw [skippedTip, height_quietChain, height_skippedBet])
    skippedBet at?_skippedBet _ 0 templateBet betOutput_skippedBet

/-- The draw that every valid bet of block `b` was meant to have. -/
def SettledOnce
    (node : Node) (tip : CBlockIndex) (b : Nat) (betIndex : CBlockIndex)
    (txout : CTxOut) : Prop :=
  ∃ pprev block,
    tip.at? (b + 120) = some (.child pprev block) ∧
    block.lottoHeader.uLottoKey ≠ 0 ∧
    IncludedInDraw node.network pprev block betIndex txout ∧
    b ≤ seedHeight pprev.height ∧ seedHeight pprev.height ≤ b + 60 ∧
    ∀ nHeight other otherBlock,
      tip.at? nHeight = some (.child other otherBlock) →
      IncludedInDraw node.network other otherBlock betIndex txout →
        nHeight = b + 120

/--
A valid bet that no block draws, and a draw whose seed is taken from a block
behind `b + 60`.
-/
theorem skippedBet_not_settled :
    (¬ ∀ (node : Node) (tip : CBlockIndex) (view : CCoinsView) (b : Nat)
      (betIndex : CBlockIndex) (tx : CTransaction) (nPos : Nat)
      (txout : CTxOut),
      Accepted node (fun _ => True) tip view → 2 ≤ b →
      b + 120 ≤ tip.height → tip.at? b = some betIndex →
      BetOutput node.network betIndex.item tx nPos txout →
        SettledOnce node tip b betIndex txout) ∧
      61 + 60 < seedHeight (61 + 119) := by
  refine ⟨?_, by decide⟩
  intro always
  rcases accepted_skippedTip with ⟨view, chain⟩
  have height : skippedTip.height = 271 := by
    rw [skippedTip, height_quietChain, height_skippedBet]
  rcases always (countingNode countingEnv) skippedTip view 151 skippedBet _ 0
      templateBet chain (by decide) (by rw [height]) at?_skippedBet
      betOutput_skippedBet with ⟨pprev, block, atDraw, key, -⟩
  have atTip := Lineage.at?_self skippedTip
  rw [height, atDraw] at atTip
  have drawIndex := Option.some.inj atTip
  rw [skippedTip, quietChain] at drawIndex
  cases drawIndex
  exact key rfl

end DSValue.Consensus.Settlement

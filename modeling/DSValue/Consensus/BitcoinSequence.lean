import DSValue.Consensus.Drawable
import DSValue.Consensus.QuietChain
import Mathlib.Data.List.Chain

/-!
# The Bitcoin blocks named along a chain

Against a fixed Bitcoin chain every accepted block names a contiguous run of
its blocks.  The run starts at or directly behind the last Bitcoin block of
the parent, unless it starts at `BTC_START_HIGHT`: the comparison with the
parent is skipped there.  `forward_iff` says that this is the only exception,
and `rewound_chain` is a chain that uses it to go back.
-/

namespace DSValue.Consensus.BitcoinSequence

open DSValue.Lib
open DSValue.Core.Serialize
open DSValue.Core.Header
open DSValue.Core.Transaction
open DSValue.Consensus.CheckLottoResult
open DSValue.Consensus.CheckBlock
open DSValue.Consensus.ConnectBlock
open DSValue.Consensus.QuietChain
open DSValue.Consensus.Drawable (countingEnv)

/-! ## The active Bitcoin chain -/

theorem start_le_of_getBitcoinBlockIndex
    {bitcoin : BitcoinChain} {nHeight : Int} {index : Lineage Uint256}
    (found : bitcoin.getBitcoinBlockIndex nHeight = some index) :
    BTC_START_HIGHT ≤ nHeight := by
  rw [BitcoinChain.getBitcoinBlockIndex] at found
  split_ifs at found with below
  omega

/-- Blocks of the active chain with the same hash have the same height. -/
theorem height_eq_of_hash_eq
    {bitcoin : BitcoinChain} {first second : Int}
    {left right : Lineage Uint256}
    (foundLeft : bitcoin.getBitcoinBlockIndex first = some left)
    (foundRight : bitcoin.getBitcoinBlockIndex second = some right)
    (hashes : left.item = right.item) :
    first = second := by
  have firstAbove := start_le_of_getBitcoinBlockIndex foundLeft
  have secondAbove := start_le_of_getBitcoinBlockIndex foundRight
  rw [BitcoinChain.getBitcoinBlockIndex, if_neg (by omega)]
    at foundLeft foundRight
  have offsets := bitcoin.distinct _ _ _ _ foundLeft foundRight hashes
  omega

theorem hash_ne_zero
    {bitcoin : BitcoinChain} {nHeight : Int} {index : Lineage Uint256}
    (found : bitcoin.getBitcoinBlockIndex nHeight = some index) :
    index.item ≠ 0 := by
  have above := start_le_of_getBitcoinBlockIndex found
  rw [BitcoinChain.getBitcoinBlockIndex, if_neg (by omega)] at found
  exact bitcoin.nonzero _ _ found

/-- Behind the first block, the parent is the block of the height below. -/
theorem pprev?_of_getBitcoinBlockIndex
    {bitcoin : BitcoinChain} {nHeight : Int} {index : Lineage Uint256}
    (found : bitcoin.getBitcoinBlockIndex nHeight = some index)
    (above : BTC_START_HIGHT < nHeight) :
    ∃ parent, index.pprev? = some parent ∧
      bitcoin.getBitcoinBlockIndex (nHeight - 1) = some parent := by
  rw [BitcoinChain.getBitcoinBlockIndex, if_neg (by omega)] at found
  rw [BitcoinChain.getBitcoinBlockIndex, if_neg (by omega)]
  have offset :
      (nHeight - BTC_START_HIGHT).toNat =
        (nHeight - 1 - BTC_START_HIGHT).toNat + 1 := by
    omega
  rw [offset] at found
  have inside := (Lineage.at?_height found).2
  rcases Lineage.at?_isSome (Nat.le_of_succ_le inside) with ⟨parent, atParent⟩
  refine ⟨parent, ?_, atParent⟩
  rw [Lineage.pprev?_of_at? found, atParent]

/-! ## One block -/

/-- The map of a header is a contiguous run of the active Bitcoin chain. -/
structure FollowsBitcoin (bitcoin : BitcoinChain) (header : CLottoHeader) :
    Prop where
  nonempty : header.mBitcoinHash.entries ≠ []
  known :
    ∀ entry ∈ header.mBitcoinHash.entries,
      ∃ index, bitcoin.getBitcoinBlockIndex entry.1.toInt = some index ∧
        index.item = entry.2
  contiguous :
    header.mBitcoinHash.entries.IsChain
      (fun earlier later => later.1.toInt = earlier.1.toInt + 1)

/--
The step from a header to the next one: a contiguous run that starts at or
directly behind the last Bitcoin block, which therefore does not go back.
-/
structure ForwardStep
    (bitcoin : BitcoinChain) (preLottoHeader lottoHeader : CLottoHeader) :
    Prop where
  follows : FollowsBitcoin bitcoin lottoHeader
  linked :
    (CLottoHeader.getFirstBitcoinHeight lottoHeader).toInt =
        (CLottoHeader.getLastBitcoinHeight preLottoHeader).toInt ∨
      (CLottoHeader.getFirstBitcoinHeight lottoHeader).toInt =
        (CLottoHeader.getLastBitcoinHeight preLottoHeader).toInt + 1
  monotone :
    CLottoHeader.getLastBitcoinHeight preLottoHeader ≤
      CLottoHeader.getLastBitcoinHeight lottoHeader

/-- What the loop over the hashes establishes for the entries behind one. -/
theorem entries_of_checkBitcoinHashes
    {bitcoin : BitcoinChain} {entries : List (Int32 × Uint256)}
    {iterPreBTCHash : Uint256}
    (accepted : checkBitcoinHashes bitcoin entries iterPreBTCHash = none) :
    ∀ entry ∈ entries,
      ∃ index, bitcoin.getBitcoinBlockIndex entry.1.toInt = some index ∧
        index.item = entry.2 := by
  induction entries generalizing iterPreBTCHash with
  | nil => simp
  | cons head tail inductionHypothesis =>
      rw [checkBitcoinHashes] at accepted
      split at accepted
      · cases accepted
      · rename_i index found
        split_ifs at accepted with mismatch duplicate
        rw [not_or, not_not] at mismatch
        intro entry member
        rcases List.mem_cons.mp member with rfl | inTail
        · exact ⟨index, found, mismatch.2⟩
        · exact inductionHypothesis accepted entry inTail

theorem contiguous_of_checkBitcoinHashes
    {bitcoin : BitcoinChain} {entries : List (Int32 × Uint256)}
    {iterPreBTCHash : Uint256}
    (ascending :
      entries.Pairwise (fun earlier later => earlier.1 < later.1))
    (accepted : checkBitcoinHashes bitcoin entries iterPreBTCHash = none) :
    entries.IsChain
      (fun earlier later => later.1.toInt = earlier.1.toInt + 1) := by
  induction entries generalizing iterPreBTCHash with
  | nil => exact .nil
  | cons head tail inductionHypothesis =>
      have known := entries_of_checkBitcoinHashes accepted
      rcases List.pairwise_cons.mp ascending with ⟨headLeast, tailAscending⟩
      rw [checkBitcoinHashes] at accepted
      split at accepted
      · cases accepted
      split_ifs at accepted with mismatch duplicate
      cases tail with
      | nil => exact .singleton head
      | cons second rest =>
          refine .cons_cons ?_ (inductionHypothesis tailAscending accepted)
          rcases known head (by simp) with ⟨headIndex, atHead, headHash⟩
          rcases known second (by simp) with ⟨index, atSecond, -⟩
          have start := start_le_of_getBitcoinBlockIndex atHead
          have later : head.1.toInt < second.1.toInt :=
            Int32.lt_iff_toInt_lt.mp (headLeast second (by simp))
          rcases pprev?_of_getBitcoinBlockIndex atSecond (by omega) with
            ⟨parent, isParent, atParent⟩
          rw [checkBitcoinHashes, atSecond] at accepted
          simp only [isParent, knownAndDiffers] at accepted
          split_ifs at accepted with differs
          rw [not_or, not_and, not_not] at differs
          have nonzero : head.2 ≠ 0 := by
            rw [← headHash]
            exact hash_ne_zero atHead
          have linked := differs.1 nonzero
          rw [decide_eq_true_eq, not_not, ← headHash] at linked
          have heights := height_eq_of_hash_eq atHead atParent linked
          omega

theorem followsBitcoin_of_checkBitcoinPart
    {bitcoin : BitcoinChain} {preLottoHeader lottoHeader : CLottoHeader}
    (accepted :
      checkBitcoinPart bitcoin preLottoHeader lottoHeader = none) :
    FollowsBitcoin bitcoin lottoHeader := by
  rw [checkBitcoinPart] at accepted
  split_ifs at accepted with isEmpty
  split at accepted
  · cases accepted
  constructor
  · simpa [OrderedMap.isEmpty] using isEmpty
  · exact entries_of_checkBitcoinHashes accepted
  · exact contiguous_of_checkBitcoinHashes
      lottoHeader.mBitcoinHash.ascending accepted

theorem followsBitcoin_genesis (bitcoin : BitcoinChain) :
    FollowsBitcoin bitcoin genesisLottoHeader := by
  have near :
      ¬ 1 < Int32.ofInt BTC_START_HIGHT -
        CLottoHeader.getLastBitcoinHeight genesisLottoHeader := by
    decide
  exact followsBitcoin_of_checkBitcoinPart
    (checkBitcoinPart_start bitcoin genesisLottoHeader genesisLottoHeader rfl
      near)

/-- The last entry of a run is a block of the active chain. -/
theorem FollowsBitcoin.last
    {bitcoin : BitcoinChain} {header : CLottoHeader}
    (follows : FollowsBitcoin bitcoin header) :
    ∃ index,
      bitcoin.getBitcoinBlockIndex
          (CLottoHeader.getLastBitcoinHeight header).toInt = some index ∧
        index.item = CLottoHeader.getLastBitcoinHash header := by
  rcases List.getLast?_eq_some_getLast follows.nonempty with last
  rw [CLottoHeader.getLastBitcoinHeight, CLottoHeader.getLastBitcoinHash,
    OrderedMap.last?, last]
  exact follows.known _ (List.getLast_mem follows.nonempty)

/-- A run ends at or behind its first entry. -/
theorem first_le_last (header : CLottoHeader) :
    CLottoHeader.getFirstBitcoinHeight header ≤
      CLottoHeader.getLastBitcoinHeight header := by
  rw [CLottoHeader.getFirstBitcoinHeight, CLottoHeader.getLastBitcoinHeight,
    OrderedMap.first?, OrderedMap.last?]
  have ascending := header.mBitcoinHash.ascending
  cases entries : header.mBitcoinHash.entries with
  | nil => exact le_rfl
  | cons head tail =>
      rw [entries] at ascending
      rw [List.head?_cons, List.getLast?_eq_some_getLast (by simp)]
      rcases List.pairwise_cons.mp ascending with ⟨headLeast, -⟩
      rcases List.mem_cons.mp (List.getLast_mem (by simp : head :: tail ≠ []))
        with isHead | inTail
      · simp only [isHead]
        exact le_rfl
      · exact le_of_lt (headLeast _ inTail)

/-- What the comparison with the parent establishes. -/
theorem linked_of_checkBitcoinLink
    {bitcoin : BitcoinChain} {preLottoHeader lottoHeader : CLottoHeader}
    (pre : FollowsBitcoin bitcoin preLottoHeader)
    (behindStart :
      (CLottoHeader.getFirstBitcoinHeight lottoHeader).toInt ≠
        BTC_START_HIGHT)
    (accepted :
      checkBitcoinLink bitcoin preLottoHeader lottoHeader = none) :
    (CLottoHeader.getFirstBitcoinHeight lottoHeader).toInt =
        (CLottoHeader.getLastBitcoinHeight preLottoHeader).toInt ∨
      (CLottoHeader.getFirstBitcoinHeight lottoHeader).toInt =
        (CLottoHeader.getLastBitcoinHeight preLottoHeader).toInt + 1 := by
  rcases pre.last with ⟨lastIndex, atLast, lastHash⟩
  simp only [checkBitcoinLink] at accepted
  split_ifs at accepted with far
  split at accepted
  · cases accepted
  rename_i index atFirst
  have start := start_le_of_getBitcoinBlockIndex atFirst
  rcases pprev?_of_getBitcoinBlockIndex atFirst (by omega) with
    ⟨parent, -, atParent⟩
  have pred :
      (CLottoHeader.getFirstBitcoinHeight lottoHeader - 1).toInt =
        (CLottoHeader.getFirstBitcoinHeight lottoHeader).toInt - 1 := by
    have upper := (CLottoHeader.getFirstBitcoinHeight lottoHeader).toInt_lt
    rw [BTC_START_HIGHT] at start
    rw [Int32.toInt_sub]
    exact Int.bmod_eq_of_le (by simp; omega) (by simp; omega)
  rw [pred, atParent] at accepted
  split_ifs at accepted with differs
  rw [not_and, ← lastHash] at differs
  by_cases same : lastIndex.item = index.item
  · exact Or.inl (height_eq_of_hash_eq atFirst atLast same.symm)
  · have parentHash := differs same
    rw [knownAndDiffers, decide_eq_true_eq, not_not] at parentHash
    have heights := height_eq_of_hash_eq atLast atParent parentHash
    exact Or.inr (by omega)

/--
The only accepted step that does not move forward starts at
`BTC_START_HIGHT` behind a block that is already further.
-/
theorem forwardStep_iff
    {bitcoin : BitcoinChain} {preLottoHeader lottoHeader : CLottoHeader}
    (pre : FollowsBitcoin bitcoin preLottoHeader)
    (accepted :
      checkBitcoinPart bitcoin preLottoHeader lottoHeader = none) :
    ForwardStep bitcoin preLottoHeader lottoHeader ↔
      ((CLottoHeader.getFirstBitcoinHeight lottoHeader).toInt =
          BTC_START_HIGHT →
        (CLottoHeader.getLastBitcoinHeight preLottoHeader).toInt =
          BTC_START_HIGHT) := by
  rcases pre.last with ⟨lastIndex, atLast, -⟩
  have start := start_le_of_getBitcoinBlockIndex atLast
  constructor
  · intro forward isStart
    rcases forward.linked with same | next
    · omega
    · omega
  · intro notRewound
    have follows := followsBitcoin_of_checkBitcoinPart accepted
    have linked :
        (CLottoHeader.getFirstBitcoinHeight lottoHeader).toInt =
            (CLottoHeader.getLastBitcoinHeight preLottoHeader).toInt ∨
          (CLottoHeader.getFirstBitcoinHeight lottoHeader).toInt =
            (CLottoHeader.getLastBitcoinHeight preLottoHeader).toInt + 1 := by
      by_cases isStart :
          (CLottoHeader.getFirstBitcoinHeight lottoHeader).toInt =
            BTC_START_HIGHT
      · rw [isStart, notRewound isStart]
        exact Or.inl rfl
      · rw [checkBitcoinPart] at accepted
        split_ifs at accepted
        split at accepted
        · cases accepted
        · rename_i link
          exact linked_of_checkBitcoinLink pre isStart link
    refine ⟨follows, linked, ?_⟩
    have inside := Int32.le_iff_toInt_le.mp (first_le_last lottoHeader)
    rw [Int32.le_iff_toInt_le]
    rcases linked with same | next
    · omega
    · omega

/-! ## Whole chains -/

/-- Every block of a chain moves the Bitcoin sequence forward. -/
def Forward (bitcoin : BitcoinChain) (tip : CBlockIndex) : Prop :=
  ∀ nHeight pprev block,
    tip.at? (nHeight + 1) = some (.child pprev block) →
      ForwardStep bitcoin pprev.item.lottoHeader block.lottoHeader

theorem followsBitcoin_of_accepted
    {node : Node} {bitcoin : BitcoinChain} {tip : CBlockIndex}
    {view : CCoinsView}
    (chain :
      Accepted node (fun snapshot => snapshot.bitcoin = bitcoin) tip view) :
    FollowsBitcoin bitcoin tip.item.lottoHeader := by
  cases tip with
  | root block =>
      cases chain with
      | genesis _ header _ =>
          rw [Lineage.item, header]
          exact followsBitcoin_genesis bitcoin
  | child pprev block =>
      rcases chain.connected with
        ⟨_, snapshot, _, _, _, _, _, -, rfl, connected⟩
      exact followsBitcoin_of_checkBitcoinPart connected.lotto.bitcoin

/--
An accepted chain moves forward through a fixed Bitcoin chain exactly when no
block that starts at `BTC_START_HIGHT` follows a block that ends behind it.
-/
theorem forward_iff
    (node : Node) (bitcoin : BitcoinChain) (tip : CBlockIndex)
    (view : CCoinsView)
    (chain :
      Accepted node (fun snapshot => snapshot.bitcoin = bitcoin) tip view) :
    Forward bitcoin tip ↔
      ∀ nHeight pprev block,
        tip.at? (nHeight + 1) = some (.child pprev block) →
        (CLottoHeader.getFirstBitcoinHeight block.lottoHeader).toInt =
          BTC_START_HIGHT →
        (CLottoHeader.getLastBitcoinHeight pprev.item.lottoHeader).toInt =
          BTC_START_HIGHT := by
  have step :
      ∀ nHeight pprev block,
        tip.at? (nHeight + 1) = some (.child pprev block) →
        (ForwardStep bitcoin pprev.item.lottoHeader block.lottoHeader ↔
          ((CLottoHeader.getFirstBitcoinHeight block.lottoHeader).toInt =
              BTC_START_HIGHT →
            (CLottoHeader.getLastBitcoinHeight pprev.item.lottoHeader).toInt =
              BTC_START_HIGHT)) := by
    intro nHeight pprev block found
    rcases chain.of_at? found with ⟨_, upToBlock⟩
    rcases upToBlock.connected with
      ⟨_, snapshot, _, _, _, _, _, upToParent, rfl, connected⟩
    exact forwardStep_iff (followsBitcoin_of_accepted upToParent)
      connected.lotto.bitcoin
  constructor
  · intro forward nHeight pprev block found
    exact (step nHeight pprev block found).mp
      (forward nHeight pprev block found)
  · intro notRewound nHeight pprev block found
    exact (step nHeight pprev block found).mpr
      (notRewound nHeight pprev block found)

/-! ## A chain that moves forward and one that does not -/

/-- A block that repeats the Bitcoin block of the genesis block. -/
def repeatedIndex : CBlockIndex :=
  .child (.root genesisBlock) (quietBlock (.root genesisBlock))

theorem forward_repeatedIndex : Forward startChain repeatedIndex := by
  have quiet :=
    (quiet_genesis countingEnv
      (fun snapshot => snapshot.bitcoin = startChain)).step
      (snapshotOf startChain) rfl (by decide) (by decide)
  apply (forward_iff _ startChain repeatedIndex _ quiet.chain).mpr
  intro nHeight pprev block found isStart
  rw [repeatedIndex, Lineage.at?] at found
  split_ifs at found
  · cases found
    rfl
  · simp [Lineage.at?] at found

/-- A Bitcoin chain of two blocks. -/
def twoBlocks : BitcoinChain where
  tip := .child (.root hashBitcoinStartBlock) 7
  starts := rfl
  distinct := by
    intro first second left right foundLeft foundRight hashes
    simp only [Lineage.at?] at foundLeft foundRight
    split_ifs at foundLeft foundRight <;> cases foundLeft <;>
      cases foundRight <;> simp_all [Lineage.item, hashBitcoinStartBlock]
  nonzero := by
    intro height node found
    simp only [Lineage.at?] at found
    split_ifs at found <;> cases found <;> decide

/-- The header of a block that names both. -/
def bothHeader : CLottoHeader :=
  { genesisLottoHeader with
    mBitcoinHash :=
      genesisLottoHeader.mBitcoinHash.insert
        (Int32.ofInt (BTC_START_HIGHT + 1)) 7 }

def aheadIndex : CBlockIndex :=
  .child (.root genesisBlock) (mintedBlock (.root genesisBlock) bothHeader [] [])

/-- A block that goes back to the first Bitcoin block. -/
def rewoundIndex : CBlockIndex :=
  .child aheadIndex (quietBlock aheadIndex)

theorem accepted_rewoundIndex :
    ∃ view, Accepted (countingNode countingEnv)
      (fun snapshot => snapshot.bitcoin = twoBlocks) rewoundIndex view := by
  have ahead :
      Mintable countingEnv (snapshotOf twoBlocks) (.root genesisBlock)
        ⟨fun _ => none, 0⟩ bothHeader [] [] := by
    apply mintable_quiet <;> first | rfl | decide
  have first :=
    ahead.accepted rfl (Int64.le_refl _)
      (quiet_genesis countingEnv
        (fun snapshot => snapshot.bitcoin = twoBlocks)).chain rfl
  have back :
      Mintable countingEnv (snapshotOf twoBlocks) aheadIndex
        { (afterCoinBase ⟨fun _ => none, 0⟩ 1 []).view with
          hashBlock := BitVec.ofNat 256 1 }
        (quietHeader aheadIndex.item.lottoHeader.llPool) [] [] := by
    apply mintable_quiet <;> first | rfl | decide
  exact ⟨_, back.accepted rfl (Int64.le_refl _) first rfl⟩

/-- An accepted chain that goes back in the Bitcoin chain. -/
theorem rewound_chain :
    ¬ ∀ (node : Node) (bitcoin : BitcoinChain) (tip : CBlockIndex)
      (view : CCoinsView),
      Accepted node (fun snapshot => snapshot.bitcoin = bitcoin) tip view →
        Forward bitcoin tip := by
  intro always
  rcases accepted_rewoundIndex with ⟨view, chain⟩
  have forward := always _ twoBlocks rewoundIndex view chain
  have step := forward 1 aheadIndex (quietBlock aheadIndex) rfl
  have back := step.monotone
  exact absurd back (by decide)

end DSValue.Consensus.BitcoinSequence

import DSValue.Mempool.Consistency
import DSValue.Mempool.BettingRules
import DSValue.Coins.RoundTrip
import Mathlib.Logic.Relation

/-!
# Runs of the memory pool

Every operation keeps the invariant as long as `DisconnectTip` spares the
coinbases that the pool spends, so what `CTxMemPool::check` asserts holds in
every state of such a run.  A pool transaction that spends the coinbase of a
disconnected block is left without its input.
-/

namespace DSValue.Mempool.Runs

open DSValue.Lib
open DSValue.Core.Serialize
open DSValue.Core.Transaction
open DSValue.Core.Compress
open DSValue.Script.Scan
open DSValue.Consensus.CheckLottoResult
open DSValue.Consensus.CheckBlock
open DSValue.Consensus.ConnectBlock
open DSValue.Consensus.QuietChain
open DSValue.Consensus.BetChain
open DSValue.Consensus.Drawable (countingEnv)
open DSValue.Coins.Undo
open DSValue.Coins.Disconnect
open DSValue.Coins.Availability
open DSValue.Coins.RoundTrip (noKeys recovers_noKeys)
open DSValue.Mempool.Pool
open DSValue.Mempool.Accept
open DSValue.Mempool.Tip
open DSValue.Mempool.Consistency
open DSValue.Mempool.BettingRules (looseBet openRelay accept_looseBet)

/-! ## Every run -/

section Runs

variable {node : Node} {keys : PubKeyOps} {hash : List UInt8 → Uint256}
  {txs : Set CTransaction} {rank : Uint256 → Nat} {state next : State}

/-- Removal keeps the invariant. -/
theorem Consistent.of_shrinks
    {pool : CTxMemPool} (consistent : Consistent node.txHash txs rank state)
    (linked : Linked node.txHash pool) (shrinks : Shrinks state.pool pool) :
    Consistent node.txHash txs rank { state with pool := pool } := by
  refine ⟨consistent.pool.of_kept linked shrinks.kept, ?_,
    consistent.authentic, consistent.recorded⟩
  intro txid tx found txin member
  have before :=
    consistent.backed txid tx (shrinks.kept txid tx found) txin member
  exact before.of_shrinks shrinks (spent_of_mem linked found member)

/-- An added transaction keeps the invariant. -/
theorem Consistent.of_adds
    {pool : CTxMemPool} {tx : CTransaction}
    (consistent : Consistent node.txHash txs rank state)
    (sound : SoundPool node.txHash txs rank pool)
    (adds : Adds node.txHash state.coins tx state.pool pool) :
    Consistent node.txHash txs rank { state with pool := pool } := by
  refine ⟨sound, ?_, consistent.authentic, consistent.recorded⟩
  intro txid other found txin member
  rcases adds.source txid other found with isNew | before
  · rw [isNew] at member
    exact (adds.backed txin member).of_adds adds
  · exact (consistent.backed txid other before txin member).of_adds adds

/-- A clean step keeps the invariant. -/
theorem Consistent.step
    (ideal : Ideal node.txHash txs rank)
    (consistent : Consistent node.txHash txs rank state)
    (clean : CleanStep node keys hash txs state next) :
    Consistent node.txHash txs rank next := by
  rcases clean with ⟨kind, step, spares⟩
  cases step with
  | accept snapshot relay tx fLimitFree fRejectInsaneFee known ran =>
      have sound :
          SoundPool (during node snapshot state.tip).txHash txs rank
            state.pool :=
        consistent.pool
      rcases adds_of_accepts known sound
          (accepts_of_acceptToMemoryPool ran) with ⟨soundNext, adds⟩
      exact Consistent.of_adds consistent soundNext adds
  | connect snapshot fuel fFlush block known fresh ran =>
      exact @Consistent.connectTip txs rank (during node snapshot state.tip)
        fuel fFlush block state next ideal consistent known fresh ran
  | disconnect snapshot relay fuel fFlush file stored ran =>
      exact @Consistent.disconnectTip txs rank
        (during node snapshot state.tip) relay keys hash fuel fFlush file
        state next ideal consistent stored (spares rfl) ran
  | remove fuel tx known ran =>
      have removes := removes_of_remove ideal ran consistent.pool known
      exact Consistent.of_shrinks consistent removes.linked removes.shrinks
  | removeConflicts fuel tx known ran =>
      have removes :=
        removesConflicts_of_removeConflicts ideal ran consistent.pool
      exact Consistent.of_shrinks consistent removes.linked removes.shrinks

theorem consistent_of_run
    (ideal : Ideal node.txHash txs rank)
    (consistent : Consistent node.txHash txs rank state)
    (run : Relation.ReflTransGen (CleanStep node keys hash txs) state next) :
    Consistent node.txHash txs rank next := by
  induction run with
  | refl => exact consistent
  | tail earlier last inductionHypothesis =>
      exact Consistent.step ideal inductionHypothesis last

/-- `CTxMemPool::check` passes in every state of a clean run. -/
theorem pool_checks_in_clean_runs
    (ideal : Ideal node.txHash txs rank)
    (consistent : Consistent node.txHash txs rank state)
    (run : Relation.ReflTransGen (CleanStep node keys hash txs) state next) :
    Checks node.txHash next.pool next.coins :=
  (consistent_of_run ideal consistent run).checks ideal

end Runs

/-! ## A spent coinbase -/

/-- A chain of coinbases that is `count` blocks high. -/
def minedChain (count : Nat) : CBlockIndex :=
  quietChain count (.root genesisBlock)

theorem height_minedChain (count : Nat) :
    (minedChain count).height = count := by
  rw [minedChain, height_quietChain, Lineage.height_root, Nat.zero_add]

theorem item_minedChain (count : Nat) :
    (minedChain (count + 1)).item = quietBlock (minedChain count) :=
  rfl

theorem nonceOf_minedChain {count : Nat} (small : count < 2 ^ 32) :
    nonceOf (minedChain count).item = BitVec.ofNat 256 count := by
  cases count with
  | zero => rfl
  | succ count =>
      have height := height_minedChain count
      have hash :
          nonceOf (quietBlock (minedChain count)) =
            BitVec.ofNat 256 ((minedChain count).height + 1) :=
        blockHash_mintedBlock (by rwa [height])
      rw [height] at hash
      exact hash

/-- The view of the chain, with unspent coinbases up to a height. -/
structure Mined (count : Nat) (view : CCoinsView) : Prop where
  hashBlock : view.hashBlock = BitVec.ofNat 256 count
  unspent :
    ∀ nHeight, 1 ≤ nHeight → nHeight ≤ count →
      view.coins (BitVec.ofNat 256 nHeight) = some (mintedCoins nHeight [])

theorem clearUnspendable_mintedCoins (nHeight : Nat) :
    (mintedCoins nHeight []).clearUnspendable = mintedCoins nHeight [] := by
  have spendable : isUnspendable (subsidyAt nHeight).scriptPubKey = false :=
    rfl
  have kept :
      [subsidyAt nHeight].rdropWhile CTxOut.isNull = [subsidyAt nHeight] := by
    apply List.rdropWhile_concat_neg CTxOut.isNull [] (subsidyAt nHeight)
    rw [subsidyAt_not_null]
    simp
  rw [mintedCoins_eq, CCoins.clearUnspendable, CCoins.cleanup]
  simp only [List.map_cons, List.map_nil, spendable, Bool.false_eq_true,
    if_false, kept]

/-- The undo data of a block without inputs, in the file. -/
def minedUndo (count : Nat) : List UInt8 :=
  writeToDisk noKeys nonceHash (BitVec.ofNat 256 count) []

section Mined

variable {count : Nat} {view : CCoinsView} {snapshot : Snapshot}
  {tip : CBlockIndex}

theorem blockHash_minedChain (small : count < 2 ^ 32) :
    (during (countingNode countingEnv) snapshot tip).blockHash
        (minedChain count).item = BitVec.ofNat 256 count := by
  rw [blockHash_countingNode, nonceOf_minedChain small]

theorem read_minedUndo (small : count < 2 ^ 32) :
    readFromDisk noKeys nonceHash
        ((during (countingNode countingEnv) snapshot tip).blockHash
          (minedChain count).item) (minedUndo count) = some [] := by
  rw [blockHash_minedChain small, minedUndo]
  apply readFromDisk_writeToDisk recovers_noKeys
  exact ⟨by decide, by simp, by simp⟩

/-- Disconnecting a block of the chain takes away its coinbase. -/
theorem disconnect_mined
    (small : count + 1 < 2 ^ 31) (mined : Mined (count + 1) view) :
    ∃ restored,
      disconnectBlock (during (countingNode countingEnv) snapshot tip) noKeys
          nonceHash view (minedChain count) (quietBlock (minedChain count))
          (minedUndo count) = .ok (restored, true) ∧
      Mined count restored ∧
      restored.coins (BitVec.ofNat 256 (count + 1)) = some emptyCoins := by
  have height := height_minedChain count
  have best :
      (during (countingNode countingEnv) snapshot tip).blockHash
          (quietBlock (minedChain count)) = view.hashBlock := by
    rw [mined.hashBlock, ← item_minedChain,
      blockHash_minedChain (show count + 1 < 2 ^ 32 by omega)]
  have isHash :
      (during (countingNode countingEnv) snapshot tip).txHash
          (mintedCoinBase (count + 1) []) = BitVec.ofNat 256 (count + 1) :=
    lockTimeHash_mintedCoinBase [] (by omega)
  have coins := mined.unspent (count + 1) (by omega) le_rfl
  have clean :
      sameCoins (mintedCoins (count + 1) []) (mintedCoins (count + 1) []) =
        true := by
    simp [sameCoins]
  have removed :
      removeOutputs (during (countingNode countingEnv) snapshot tip)
          ((minedChain count).height + 1) (view, true)
          (mintedCoinBase (count + 1) []) =
        (view.setCoins (BitVec.ofNat 256 (count + 1)) emptyCoins, true) := by
    have version : ¬ (mintedCoins (count + 1) []).nVersion < 0 := by
      rw [mintedCoins_eq]
      exact show ¬ (1 : Int32) < 0 by decide
    rw [removeOutputs, height]
    simp only [isHash, coins, Option.getD_some, clearUnspendable_mintedCoins,
      Bool.true_and]
    rw [← mintedCoins, if_neg version, clean]
  refine ⟨{ view.setCoins (BitVec.ofNat 256 (count + 1)) emptyCoins with
    hashBlock := BitVec.ofNat 256 count }, ?_, ⟨rfl, ?_⟩, ?_⟩
  · simp only [disconnectBlock, best, ne_eq, not_true_eq_false, if_false,
      read_minedUndo (show count < 2 ^ 32 by omega)]
    have vtx :
        (quietBlock (minedChain count)).vtx =
          [mintedCoinBase (count + 1) []] := by
      rw [quietBlock, mintedBlock, height]
    rw [vtx, if_neg (by simp), blockHash_minedChain (by omega)]
    simp only [undoOrder, List.map_nil, List.zip_cons_cons, List.zip_nil_left,
      List.reverse_singleton, List.foldlM_cons, List.foldlM_nil,
      disconnectTransaction, removed]
    rfl
  · intro nHeight positive below
    have differs :
        BitVec.ofNat 256 nHeight ≠ BitVec.ofNat 256 (count + 1) := by
      intro equal
      have same := ofNat_injective (by omega) (by omega) equal
      omega
    exact (CCoinsView.setCoins_of_ne view emptyCoins differs).trans
      (mined.unspent nHeight positive (by omega))
  · exact CCoinsView.setCoins_self _ _ _

/-- `DisconnectTip` of a block of the chain leaves the pool as it is. -/
theorem disconnectTip_mined
    {pool : CTxMemPool} {rest : List CBlockUndo}
    (small : count + 1 < 2 ^ 31) (mined : Mined (count + 1) view) :
    ∃ restored,
      Step (countingNode countingEnv) noKeys nonceHash Set.univ .disconnect
        ⟨minedChain (count + 1), [] :: rest, view, pool⟩
        ⟨minedChain count, rest, restored, pool⟩ ∧
      Mined count restored ∧
      restored.coins (BitVec.ofNat 256 (count + 1)) = some emptyCoins := by
  rcases @disconnect_mined count view (snapshotOf startChain)
      (minedChain (count + 1)) small mined with
    ⟨restored, ran, minedBelow, gone⟩
  refine ⟨restored, ?_, minedBelow, gone⟩
  apply Step.disconnect (snapshotOf startChain) openRelay 0 false
    (minedUndo count)
  · intro pprev block isTip
    cases isTip
    exact ⟨[], rfl,
      @read_minedUndo count (snapshotOf startChain) (minedChain count)
        (by omega)⟩
  · have isTip :
        minedChain (count + 1) =
          .child (minedChain count) (quietBlock (minedChain count)) := rfl
    have skipped :
        (quietBlock (minedChain count)).vtx.foldlM
            (resurrect
              (during (countingNode countingEnv) (snapshotOf startChain)
                (minedChain (count + 1))) openRelay 0 (minedChain count)
              restored) pool = .ok pool :=
      rfl
    rw [disconnectTip]
    simp only [isTip] at ran skipped ⊢
    simp only [ran, writeChainState, Bool.false_eq_true, if_false, skipped]
    rfl

/-- Several blocks of the chain are disconnected. -/
theorem disconnect_run
    {pool : CTxMemPool} (more : Nat) (small : count + more < 2 ^ 31)
    (mined : Mined (count + more) view) :
    ∃ restored,
      Relation.ReflTransGen
        (fun state next =>
          ∃ kind, Step (countingNode countingEnv) noKeys nonceHash Set.univ
            kind state next)
        ⟨minedChain (count + more), List.replicate (count + more) [], view,
          pool⟩
        ⟨minedChain count, List.replicate count [], restored, pool⟩ ∧
      Mined count restored := by
  induction more generalizing view with
  | zero => exact ⟨view, .refl, mined⟩
  | succ more inductionHypothesis =>
      rcases @disconnectTip_mined (count + more) view pool
          (List.replicate (count + more) []) small mined with
        ⟨middle, step, minedBelow, -⟩
      rcases inductionHypothesis (by omega) minedBelow with
        ⟨restored, run, minedLast⟩
      exact ⟨restored, .head ⟨.disconnect, step⟩ run, minedLast⟩

end Mined

/-- The coins of the chain, none of them spent. -/
def minedView (count : Nat) : CCoinsView where
  coins := fun txid =>
    if 1 ≤ txid.toNat ∧ txid.toNat ≤ count then
      some (mintedCoins txid.toNat [])
    else none
  hashBlock := BitVec.ofNat 256 count

theorem mined_minedView {count : Nat} (small : count < 2 ^ 32) :
    Mined count (minedView count) := by
  refine ⟨rfl, ?_⟩
  intro nHeight positive below
  have value : (BitVec.ofNat 256 nHeight).toNat = nHeight := by
    rw [BitVec.toNat_ofNat]
    exact Nat.mod_eq_of_lt (lt_trans (by omega : nHeight < 2 ^ 32) (by decide))
  rw [minedView]
  simp only [value]
  exact if_pos ⟨positive, below⟩

/-- Block 150 of the chain, with an empty pool. -/
def beforeLooseBet : State where
  tip := minedChain 150
  undo := List.replicate 150 []
  coins := minedView 150
  pool := .empty

/-- The pool with a transaction that spends the coinbase of block one. -/
def looseBetPool : CTxMemPool :=
  CTxMemPool.empty.addUnchecked (lockTimeHash looseBet) looseBet

theorem accept_beforeLooseBet (txs : Set CTransaction)
    (known : looseBet ∈ txs) :
    Step (countingNode countingEnv) noKeys nonceHash txs .accept
      beforeLooseBet { beforeLooseBet with pool := looseBetPool } := by
  have mined := mined_minedView (show 150 < 2 ^ 32 by decide)
  have spendable : Spendable (minedView 150) [1] 151 := by
    refine ⟨?_, by decide, by decide⟩
    intro nHeight member
    rw [List.mem_singleton.mp member]
    exact mined.unspent 1 le_rfl (by decide)
  apply Step.accept (snapshotOf startChain) openRelay looseBet true true known
  rw [← height_minedChain 150] at spendable
  exact accept_looseBet (height_minedChain 150) rfl spendable

/-- The coinbases of the chain, and the bet. -/
def minedTxs : Set CTransaction :=
  { tx | tx = looseBet ∨
    ∃ nHeight, 1 ≤ nHeight ∧ nHeight ≤ 150 ∧ tx = mintedCoinBase nHeight [] }

theorem ideal_minedTxs :
    Ideal (countingNode countingEnv).txHash minedTxs BitVec.toNat := by
  have coinBaseHash :
      ∀ nHeight ≤ 150,
        ((countingNode countingEnv).txHash
          (mintedCoinBase nHeight [])).toNat = nHeight := by
    intro nHeight below
    have isHash := @lockTimeHash_mintedCoinBase nHeight [] (by omega)
    exact (congrArg BitVec.toNat isHash).trans (by
      rw [BitVec.toNat_ofNat]
      exact Nat.mod_eq_of_lt
        (lt_trans (by omega : nHeight < 2 ^ 32) (by decide)))
  have betHash :
      ((countingNode countingEnv).txHash looseBet).toNat = 0x80000000 := by
    decide
  constructor
  · intro first inFirst second inSecond same
    have value := congrArg BitVec.toNat same
    rcases inFirst with isBet | ⟨nHeight, -, below, isCoinBase⟩ <;>
      rcases inSecond with isOther | ⟨other, -, otherBelow, isOther⟩
    · rw [isBet, isOther]
    · rw [isBet, isOther, betHash, coinBaseHash other otherBelow] at value
      omega
    · rw [isCoinBase, isOther, betHash, coinBaseHash nHeight below] at value
      omega
    · rw [isCoinBase, isOther, coinBaseHash nHeight below,
        coinBaseHash other otherBelow] at value
      rw [isCoinBase, isOther, value]
  · intro tx inTxs regular txin member
    rcases inTxs with isBet | ⟨nHeight, -, -, isCoinBase⟩
    · rw [isBet] at member
      rw [isBet, betHash, List.mem_singleton.mp member]
      decide
    · rw [isCoinBase] at regular
      cases regular

theorem recorded_minedChain {count : Nat} (below : count ≤ 150) :
    Recorded (countingNode countingEnv).txHash minedTxs (minedChain count)
      (List.replicate count []) := by
  induction count with
  | zero => trivial
  | succ count inductionHypothesis =>
      refine ⟨⟨?_, ?_⟩, inductionHypothesis (by omega)⟩
      · intro tx member
        have isCoinBase := List.mem_singleton.mp member
        rw [show (quietChain count (.root genesisBlock)).height = count from
          height_minedChain count] at isCoinBase
        exact Or.inr ⟨count + 1, by omega, below, isCoinBase⟩
      · intro entry member vprevout isUndo
        have isEntry := List.mem_singleton.mp member
        rw [isEntry] at isUndo
        cases isUndo

theorem consistent_beforeLooseBet :
    Consistent (countingNode countingEnv).txHash minedTxs BitVec.toNat
      beforeLooseBet := by
  constructor
  · refine ⟨linked_empty _, ?_, 0, ?_⟩
    · intro hash tx found
      cases found
    · intro hash tx found
      cases found
  · intro hash tx found
    cases found
  · intro outpoint isLeft
    rw [unspentAt] at isLeft
    have known :
        1 ≤ outpoint.hash.toNat ∧ outpoint.hash.toNat ≤ 150 := by
      by_contra outside
      have absent : beforeLooseBet.coins.coins outpoint.hash = none :=
        if_neg outside
      rw [absent] at isLeft
      cases isLeft
    have coins :
        beforeLooseBet.coins.coins outpoint.hash =
          some (mintedCoins outpoint.hash.toNat []) :=
      if_pos known
    rw [coins] at isLeft
    refine ⟨mintedCoinBase outpoint.hash.toNat [],
      Or.inr ⟨_, known.1, known.2, rfl⟩, ?_, isLeft⟩
    exact (lockTimeHash_mintedCoinBase [] (by omega)).trans
      (BitVec.ofNat_toNat 256 outpoint.hash |>.trans (BitVec.setWidth_eq _))
  · exact recorded_minedChain le_rfl

/-- The pool passes the check behind the accepted bet. -/
theorem looseBet_checks :
    CleanStep (countingNode countingEnv) noKeys nonceHash minedTxs
      beforeLooseBet { beforeLooseBet with pool := looseBetPool } ∧
    Checks (countingNode countingEnv).txHash looseBetPool (minedView 150) := by
  have clean :
      CleanStep (countingNode countingEnv) noKeys nonceHash minedTxs
        beforeLooseBet { beforeLooseBet with pool := looseBetPool } :=
    ⟨.accept, accept_beforeLooseBet minedTxs (Or.inl rfl), by simp⟩
  exact ⟨clean,
    pool_checks_in_clean_runs ideal_minedTxs consistent_beforeLooseBet
      (.single clean)⟩

/-- The spender stays in the pool when the coinbase is gone. -/
theorem spent_coinbase_disconnected :
    Checks (countingNode countingEnv).txHash beforeLooseBet.pool
      beforeLooseBet.coins ∧
    ∃ state,
      Relation.ReflTransGen
        (fun state next =>
          ∃ kind, Step (countingNode countingEnv) noKeys nonceHash Set.univ
            kind state next) beforeLooseBet state ∧
      ¬ Checks (countingNode countingEnv).txHash state.pool state.coins := by
  refine ⟨⟨?_, ?_⟩, ?_⟩
  · intro hash tx found
    cases found
  · exact linked_empty _
  have mined := mined_minedView (show 150 < 2 ^ 32 by decide)
  rcases @disconnect_run 1 (minedView 150) looseBetPool 149 (by decide) mined
    with ⟨middle, run, minedFirst⟩
  rcases @disconnectTip_mined 0 middle looseBetPool [] (by decide) minedFirst
    with ⟨last, step, -, gone⟩
  refine ⟨_,
    .head ⟨.accept, accept_beforeLooseBet Set.univ trivial⟩
      (run.tail ⟨.disconnect, step⟩), ?_⟩
  intro checks
  have inPool :
      looseBetPool.mapTx (lockTimeHash looseBet) = some looseBet := by
    simp only [looseBetPool, CTxMemPool.addUnchecked, Function.update_self]
  have backed :=
    checks.inputs (lockTimeHash looseBet) looseBet inPool (inputOf 1)
      List.mem_cons_self
  have isOther : looseBetPool.mapTx (inputOf 1).prevout.hash = none := by
    decide
  simp only [isOther] at backed
  rcases backed with ⟨coins, known, available⟩
  rw [show (inputOf 1).prevout.hash = BitVec.ofNat 256 1 from rfl, gone]
    at known
  cases known
  cases available

end DSValue.Mempool.Runs

import DSValue.Chain.Containment
import DSValue.Chain.Reorganisation

/-!
# Runs of the block tree

The states that the operations on the active chain reach, with restarts
between them.  The indexes of every such state form a tree, and the chains lie
in it.
-/

namespace DSValue.Chain.Runs

open DSValue.Lib
open DSValue.Core.Serialize
open DSValue.Core.Header
open DSValue.Core.Transaction
open DSValue.Consensus.CheckLottoResult
open DSValue.Consensus.CheckBlock
open DSValue.Consensus.QuietChain
open DSValue.Chain.BestChain
open DSValue.Chain.Activation
open DSValue.Chain.Passes
open DSValue.Chain.Termination
open DSValue.Chain.BlockIndex
open DSValue.Chain.CheckActiveChain
open DSValue.Chain.Containment
open DSValue.Chain.Reorganisation

variable {genesis tip : CBlockIndex}
  {connectTip : CBlockIndex → Option Reject}

/-! ## Runs -/

/-- The state after the block index has been loaded. -/
def loaded
    (state : TreeState) (tip : CBlockIndex) (failed : List CBlockIndex) :
    TreeState where
  mapBlockIndex := state.mapBlockIndex
  nSequenceId := fun _ => 0
  nBlockSequenceId := 1
  chain :=
    { chainActive := some tip
      chainMostWork := none
      setBlockIndexValid := state.mapBlockIndex.filter (· ∉ failed)
      failed := failed }

/--
The states of a node.  After a restart the indexes may have other addresses,
any block of the map may be the one to which the coins belong, and failure
bits may be lost.
-/
inductive Run : Machine → TreeState → Prop where
  | genesis (machine : Machine) (block : CBlock) :
      Run machine (genesisState block)
  | add {machine : Machine} {state next : TreeState} {block : CBlock}
      {fuel : Nat} (bitcoin : BitcoinChain) (outcomes : Outcomes CBlock)
      (before : Run machine state)
      (parent : ParentKnown machine state block)
      (result :
        addToBlockIndex machine bitcoin outcomes.connectTip fuel state block =
          .ok next) :
      Run machine next
  | activate {machine : Machine} {state next : TreeState} {fuel : Nat}
      (bitcoin : BitcoinChain) (outcomes : Outcomes CBlock)
      (before : Run machine state)
      (result :
        activate machine bitcoin outcomes.connectTip fuel state = .ok next) :
      Run machine next
  | checkLastBlockState {machine : Machine} {state next : TreeState}
      {nCurBTCHeight : Int32}
      (bitcoin : BitcoinChain) (before : Run machine state)
      (result :
        checkLastBlockState machine bitcoin nCurBTCHeight state = .ok next) :
      Run machine next
  | checkActiveChain {machine : Machine} {state next : TreeState}
      {nHeight : Int32} {hash : Uint256}
      (checkpoints : Checkpoints) (outcomes : Outcomes CBlock)
      (before : Run machine state)
      (result :
        checkActiveChain machine checkpoints outcomes.connectTip nHeight hash
          state = .ok next) :
      Run machine next
  | restart {machine : Machine} {state : TreeState} {tip : CBlockIndex}
      {failed : List CBlockIndex} (later : Machine)
      (sameHash : later.hash9 = machine.hash9)
      (before : Run machine state)
      (isKnown : tip ∈ state.mapBlockIndex)
      (fewer : failed ⊆ state.chain.failed) :
      Run later (loaded state tip failed)

/-- The map has the shape of a tree, and the chains lie in it. -/
structure Grown (genesis : CBlockIndex) (state : TreeState) : Prop where
  tree : Tree (· ∈ state.mapBlockIndex) genesis
  once : state.mapBlockIndex.Nodup
  within : Within (· ∈ state.mapBlockIndex) state.chain

theorem grown_genesis (block : CBlock) :
    Grown (.root block) (genesisState block) := by
  have kept := kept_genesis block
  refine ⟨kept.tree, List.nodup_singleton _, kept.sound.active,
    kept.sound.candidates, List.nodup_singleton _, ?_⟩
  exact fun tip isTip => (kept.sound.mostWork tip isTip).1

theorem Grown.addEntry
    {machine : Machine} {state after : TreeState} {block : CBlock}
    (grown : Grown genesis state) (parent : ParentKnown machine state block)
    (result : addEntry machine state block = .ok after) :
    Grown genesis after := by
  rcases addEntry_cases parent result with
    ⟨pprev, isPprev, fresh, isMap, isChain⟩
  have within := grown.within
  constructor
  · rw [isMap]
    exact tree_cons grown.tree isPprev
  · rw [isMap]
    exact List.nodup_cons.mpr ⟨fresh, grown.once⟩
  · rw [isMap, isChain]
    constructor
    · rcases within.active with ⟨tip, isTip, isKnown⟩
      exact ⟨tip, isTip, List.mem_cons_of_mem _ isKnown⟩
    · intro pindex member
      rcases List.mem_cons.mp member with rfl | earlier
      · exact List.mem_cons_self
      · exact List.mem_cons_of_mem _ (within.candidates pindex earlier)
    · exact List.nodup_cons.mpr
        ⟨fun member => fresh (within.candidates _ member), within.distinct⟩
    · exact fun tip isTip =>
        List.mem_cons_of_mem _ (within.mostWork tip isTip)

theorem Grown.activate
    {machine : Machine} {state after : TreeState} {bitcoin : BitcoinChain}
    {fuel : Nat} (grown : Grown genesis state)
    (result : activate machine bitcoin connectTip fuel state = .ok after) :
    Grown genesis after := by
  rw [BlockIndex.activate] at result
  split at result
  · cases result
  next chain activated =>
    cases result
    exact ⟨grown.tree, grown.once,
      grown.within.activateBestChain grown.tree activated⟩

theorem Grown.checkLastBlockState
    {machine : Machine} {state after : TreeState} {bitcoin : BitcoinChain}
    {nCurBTCHeight : Int32} (grown : Grown genesis state)
    (result :
      checkLastBlockState machine bitcoin nCurBTCHeight state = .ok after) :
    Grown genesis after := by
  rcases checkLastBlockState_cases result with
    rfl | ⟨tip, pindexBlock, pprev, candidates, isTip, below, -, parent,
      shorter, rfl⟩
  · exact grown
  · have within := grown.within
    rcases within.active with ⟨other, isOther, tipKnown⟩
    rw [isTip] at isOther
    cases isOther
    rcases Lineage.eq_child_of_pprev? parent with ⟨block, rfl⟩
    have pprevKnown : pprev ∈ state.mapBlockIndex :=
      grown.tree.closed _ _ tipKnown
        ((Lineage.le_child pprev block).trans below)
    rcases disconnectTips_spec (grown.tree.rooted _ tipKnown)
        (grown.tree.rooted _ pprevKnown) with
      ⟨fork, disconnected, onTip, -, -⟩
    refine ⟨grown.tree, grown.once,
      ⟨fork, disconnected, grown.tree.closed _ _ tipKnown onTip⟩,
      fun pindex member => within.candidates pindex (shorter.subset member),
      within.distinct.sublist shorter, ?_⟩
    rintro _ ⟨⟩
    exact pprevKnown

theorem Grown.checkActiveChain
    {machine : Machine} {state after : TreeState} {checkpoints : Checkpoints}
    {nHeight : Int32} {hash : Uint256} (grown : Grown genesis state)
    (result :
      checkActiveChain machine checkpoints connectTip nHeight hash state =
        .ok after) :
    Grown genesis after := by
  rcases checkActiveChain_cases grown.within grown.tree result with
    rfl | ⟨tip, mostWork, candidates, isTip, isKnown, shorter, rfl⟩
  · exact grown
  · exact ⟨grown.tree, grown.once,
      grown.within.settle grown.tree isTip isKnown shorter⟩

theorem Grown.loaded
    {state : TreeState} (grown : Grown genesis state)
    (isKnown : tip ∈ state.mapBlockIndex) (failed : List CBlockIndex) :
    Grown genesis (loaded state tip failed) :=
  ⟨grown.tree, grown.once, ⟨tip, rfl, isKnown⟩,
    fun _ member => List.mem_of_mem_filter member,
    grown.once.sublist List.filter_sublist, by rintro _ ⟨⟩⟩

theorem Run.grown
    {machine : Machine} {state : TreeState} (run : Run machine state) :
    ∃ genesis, Grown genesis state := by
  induction run with
  | genesis machine block => exact ⟨_, grown_genesis block⟩
  | add bitcoin outcomes before parent result inductionHypothesis =>
      rcases inductionHypothesis with ⟨genesis, grown⟩
      rw [addToBlockIndex, bind_eq_ok] at result
      rcases result with ⟨added, entry, activated⟩
      exact ⟨genesis, (grown.addEntry parent entry).activate activated⟩
  | activate bitcoin outcomes before result inductionHypothesis =>
      rcases inductionHypothesis with ⟨genesis, grown⟩
      exact ⟨genesis, grown.activate result⟩
  | checkLastBlockState bitcoin before result inductionHypothesis =>
      rcases inductionHypothesis with ⟨genesis, grown⟩
      exact ⟨genesis, grown.checkLastBlockState result⟩
  | checkActiveChain checkpoints outcomes before result inductionHypothesis =>
      rcases inductionHypothesis with ⟨genesis, grown⟩
      exact ⟨genesis, grown.checkActiveChain result⟩
  | restart later sameHash before isKnown fewer inductionHypothesis =>
      rcases inductionHypothesis with ⟨genesis, grown⟩
      exact ⟨genesis, grown.loaded isKnown _⟩

/-- The states that are reached without checkpoints and restarts. -/
theorem Run.of_reachable
    {machine : Machine} {state : TreeState}
    (reachable : Reachable machine state) : Run machine state := by
  induction reachable with
  | genesis block => exact .genesis machine block
  | add bitcoin outcomes _ parent result inductionHypothesis =>
      exact .add bitcoin outcomes inductionHypothesis parent result
  | activate bitcoin outcomes _ result inductionHypothesis =>
      exact .activate bitcoin outcomes inductionHypothesis result
  | checkLastBlockState bitcoin _ result inductionHypothesis =>
      exact .checkLastBlockState bitcoin inductionHypothesis result

/-! ## Blocks that connect at once -/

/-- The outcomes in which every block connects. -/
def connecting : Outcomes CBlock where
  connectTip := fun _ => none
  kinds := by simp

/-- The tip after some blocks, each with the tip after it, the newest first. -/
def lastTip : List (CBlockIndex × CBlockIndex) → CBlockIndex
  | [] => genesisIndex
  | entry :: _ => entry.2

/-- The state after some blocks that are all candidates. -/
def historyState (history : List (CBlockIndex × CBlockIndex)) : TreeState :=
  stateOf (history.map Prod.fst)
    { chainActive := some (lastTip history)
      chainMostWork := some (lastTip history)
      setBlockIndexValid := history.map Prod.fst ++ [genesisIndex]
      failed := [] }

/-- The state when `ActivateBestChain` is called for the newest block. -/
def enteredState
    (pindexNew : CBlockIndex) (history : List (CBlockIndex × CBlockIndex)) :
    TreeState :=
  stateOf (pindexNew :: history.map Prod.fst)
    { chainActive := some (lastTip history)
      chainMostWork := some (lastTip history)
      setBlockIndexValid :=
        pindexNew :: history.map Prod.fst ++ [genesisIndex]
      failed := [] }

/--
A block whose nonce counts the blocks comes in on a known one, and one pass
of `ActivateBestChain` ends at the given tip.
-/
def Follows
    (machine : Machine) (bitcoin : BitcoinChain)
    (history : List (CBlockIndex × CBlockIndex))
    (entry : CBlockIndex × CBlockIndex) : Prop :=
  match entry.1 with
  | .root _ => False
  | .child pprev block =>
      (historyState history).mapBlockIndex.find? (fun pindex =>
          nonceOf pindex.item = block.hashPrevBlock) = some pprev ∧
        (historyState history).mapBlockIndex.any (fun pindex =>
          nonceOf pindex.item = nonceOf block) = false ∧
        block.nNonce.toNat = history.length + 1 ∧
        activatePass
            (distinctComparator
              ((enteredState entry.1 history).fields machine))
            (checkBTCHashValid bitcoin) connecting.connectTip
            (enteredState entry.1 history).chain =
          some ((historyState (entry :: history)).chain, true)

instance
    (machine : Machine) (bitcoin : BitcoinChain)
    (history : List (CBlockIndex × CBlockIndex))
    (entry : CBlockIndex × CBlockIndex) :
    Decidable (Follows machine bitcoin history entry) :=
  match entry with
  | (.root _, _) => inferInstanceAs (Decidable False)
  | (.child _ _, _) => inferInstanceAs (Decidable (_ ∧ _ ∧ _ ∧ _))

/-- Every block follows the ones before it. -/
def History (machine : Machine) (bitcoin : BitcoinChain) :
    List (CBlockIndex × CBlockIndex) → Prop
  | [] => True
  | entry :: history =>
      Follows machine bitcoin history entry ∧
        History machine bitcoin history

instance decidableHistory (machine : Machine) (bitcoin : BitcoinChain) :
    ∀ history, Decidable (History machine bitcoin history)
  | [] => inferInstanceAs (Decidable True)
  | _ :: history =>
      have := decidableHistory machine bitcoin history
      inferInstanceAs (Decidable (_ ∧ _))

theorem Run.follows
    {bitcoin : BitcoinChain} {history : List (CBlockIndex × CBlockIndex)}
    {entry : CBlockIndex × CBlockIndex}
    (run : Run (machineOf nonceHash) (historyState history))
    (follows : Follows (machineOf nonceHash) bitcoin history entry) :
    Run (machineOf nonceHash) (historyState (entry :: history)) := by
  rcases entry with ⟨pindexNew, tip⟩
  cases pindexNew with
  | root block => cases follows
  | child pprev block =>
      rcases follows with ⟨found, fresh, count, pass⟩
      have entered :
          addEntry (machineOf nonceHash) (historyState history) block =
            .ok (enteredState (.child pprev block) history) := by
        have sequence :
            (historyState history).nBlockSequenceId =
              UInt32.ofNat (block.nNonce.toNat + 1) := by
          rw [count]
          simp only [historyState, stateOf, List.length_map]
        have next :
            UInt32.ofNat (block.nNonce.toNat + 1) + 1 =
              UInt32.ofNat (history.length + 1 + 2) := by
          rw [count]
          exact (UInt32.ofNat_add (history.length + 1 + 1) 1).symm
        simp only [addEntry, newIndex, blockHash_machineOf]
        rw [if_neg (by rw [fresh]; exact Bool.false_ne_true)]
        simp only [found, sequence, next]
        simp only [enteredState, historyState, stateOf, List.foldr_cons,
          List.length_cons, List.length_map, List.cons_append]
        rfl
      have known :
          ParentKnown (machineOf nonceHash) (historyState history) block := by
        refine ⟨pprev, List.mem_of_find?_eq_some found, ?_⟩
        rw [blockHash_machineOf]
        have isParent := List.find?_some found
        exact of_decide_eq_true isParent
      have activated :
          BlockIndex.activate (machineOf nonceHash) bitcoin
              connecting.connectTip 1
              (enteredState (.child pprev block) history) =
            .ok (historyState ((.child pprev block, tip) :: history)) := by
        refine activate_eq_ok.mpr ⟨_, ?_, rfl⟩
        rw [blockIndexWorkComparator_eq_distinct, Loop.run, body, pass]
        rfl
      have result :
          addToBlockIndex (machineOf nonceHash) bitcoin connecting.connectTip
              1 (historyState history) block =
            .ok (historyState ((.child pprev block, tip) :: history)) := by
        rw [addToBlockIndex, entered]
        exact activated
      exact .add bitcoin connecting run known result

/-- The state after a history is reached. -/
theorem run_of_history
    {bitcoin : BitcoinChain} {history : List (CBlockIndex × CBlockIndex)}
    (valid : History (machineOf nonceHash) bitcoin history) :
    Run (machineOf nonceHash) (historyState history) := by
  induction history with
  | nil => exact .genesis (machineOf nonceHash) genesisBlock
  | cons entry history inductionHypothesis =>
      exact (inductionHypothesis valid.2).follows valid.1

end DSValue.Chain.Runs

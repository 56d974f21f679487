import DSValue.Chain.BlockIndex
import DSValue.Lib.Descending

/-!
# Enforcing a checkpoint

`CheckActiveChain` moves the active chain to the last known checkpoint, or in
front of a block with a wrong hash, and erases candidates on the way.  The
checkpoints are given by their map and by the switch that turns them off.
-/

namespace DSValue.Chain.CheckActiveChain

open DSValue.Lib
open DSValue.Core.Serialize
open DSValue.Core.Header
open DSValue.Core.Transaction
open DSValue.Consensus.CheckLottoResult
open DSValue.Consensus.CheckBlock
open DSValue.Chain.BestChain
open DSValue.Chain.Selection
open DSValue.Chain.Activation
open DSValue.Chain.BlockIndex

/-! ## The checkpoints -/

/-- `mapCheckpoints` and `fEnabled`. -/
structure Checkpoints where
  fEnabled : Bool
  mapCheckpoints : OrderedMap Int32 Uint256

/-- `mapBlockIndex.find(hash)`. -/
def findIndex (machine : Machine) (state : TreeState) (hash : Uint256) :
    Option CBlockIndex :=
  state.mapBlockIndex.find? fun pindex =>
    machine.blockHash pindex.item = hash

/-- `GetLastCheckpoint`. -/
def getLastCheckpoint
    (machine : Machine) (checkpoints : Checkpoints) (state : TreeState) :
    Option CBlockIndex :=
  if checkpoints.fEnabled then
    checkpoints.mapCheckpoints.entries.reverse.findSome? fun i =>
      findIndex machine state i.2
  else none

theorem getLastCheckpoint_mem
    {machine : Machine} {checkpoints : Checkpoints} {state : TreeState}
    {pcheckpoint : CBlockIndex}
    (found :
      getLastCheckpoint machine checkpoints state = some pcheckpoint) :
    pcheckpoint ∈ state.mapBlockIndex := by
  rw [getLastCheckpoint] at found
  split_ifs at found with enabled
  rcases List.exists_of_findSome?_eq_some found with ⟨entry, -, isIndex⟩
  exact List.mem_of_find?_eq_some isIndex

/-! ## The loops over the candidates -/

/-- The loop back to the last index that a chain contains. -/
def lastContained (chainMostWork : CBlockIndex) :
    CBlockIndex → Option CBlockIndex
  | .root block =>
      if .root block ≤ chainMostWork then some (.root block) else none
  | .child pprev block =>
      if .child pprev block ≤ chainMostWork then some (.child pprev block)
      else lastContained chainMostWork pprev

theorem lastContained_eq (chainMostWork pindex : CBlockIndex) :
    lastContained chainMostWork pindex =
      disconnectTips chainMostWork pindex := by
  induction pindex with
  | root block => rfl
  | child pprev block inductionHypothesis =>
      rw [lastContained, disconnectTips, inductionHypothesis]

/-- The position of the loop with a known checkpoint. -/
structure Enforcement extends Sweep where
  chainMostWork : CBlockIndex

/-- The tip of `chainMostWork` after an index that branches off it is seen. -/
def moveTip (pIndexCheck pIndexTest chainMostWork : CBlockIndex) :
    CBlockIndex :=
  if pIndexCheck ≤ chainMostWork ∧
      chainMostWork.height = pIndexCheck.height ∧
      nChainWork chainMostWork < nChainWork pIndexTest then pIndexTest
  else chainMostWork

/-- One pass of the loop when a checkpoint is known. -/
def enforcePass
    (less : CBlockIndex → CBlockIndex → Bool) (nHeight : Nat)
    (pcheckpoint : CBlockIndex) (loop : Enforcement) :
    Option (Enforcement × Bool) :=
  match (descending less loop.candidates)[loop.it]? with
  | none => some (loop, true)
  | some pIndexTest =>
      if pIndexTest ≤ loop.chainMostWork then some (loop, true)
      else if pcheckpoint.height < nHeight then
        if nHeight ≤ pIndexTest.height then
          some (⟨⟨loop.candidates.filter (· ≠ pIndexTest), 0⟩,
            loop.chainMostWork⟩, false)
        else
          some (⟨⟨loop.candidates, loop.it + 1⟩, loop.chainMostWork⟩, false)
      else
        match pIndexTest.pprev?.bind (lastContained loop.chainMostWork) with
        | none => none
        | some pIndexCheck =>
            if pIndexCheck.height < pcheckpoint.height then
              some (⟨sweepPath pIndexCheck pIndexTest loop.toSweep,
                moveTip pIndexCheck pIndexCheck loop.chainMostWork⟩, false)
            else
              some (⟨⟨loop.candidates, loop.it + 1⟩,
                moveTip pIndexCheck pIndexTest loop.chainMostWork⟩, false)

/-- One pass of the loop when no checkpoint is known. -/
def removePass
    (machine : Machine) (less : CBlockIndex → CBlockIndex → Bool)
    (nHeight : Nat) (hash : Uint256) (sweep : Sweep) :
    Option (Sweep × Bool) :=
  match (descending less sweep.candidates)[sweep.it]? with
  | none => some (sweep, true)
  | some current =>
      let pBlockTest := (current.at? nHeight).getD current
      if machine.blockHash pBlockTest.item ≠ hash ∧ current ≠ pBlockTest then
        some (sweepPath pBlockTest current sweep, false)
      else some (⟨sweep.candidates, sweep.it + 1⟩, false)

/-! ## The active chain -/

/-- The loop of `ConnectTip`, which inserts what it connects. -/
def connectMostWork
    (connectTip : CBlockIndex → Option Reject) (chainMostWork : CBlockIndex) :
    Nat → ChainState CBlock → ChainState CBlock
  | 0, chain => chain
  | left + 1, chain =>
      match chainMostWork.at? (nextHeight chain.chainActive) with
      | none => chain
      | some pindexConnect =>
          match connectTip pindexConnect with
          | some reject => invalidBlockFound chain pindexConnect reject
          | none =>
              connectMostWork connectTip chainMostWork left
                { chain with
                  chainActive := some pindexConnect
                  setBlockIndexValid :=
                    chain.setBlockIndexValid.insert pindexConnect }

/-- Disconnecting down to the new chain and connecting up to its tip. -/
def settle
    (connectTip : CBlockIndex → Option Reject)
    (tip chainMostWork : CBlockIndex) (candidates : List CBlockIndex)
    (chain : ChainState CBlock) : ChainState CBlock :=
  connectMostWork connectTip chainMostWork (chainMostWork.height + 1)
    { chain with
      setBlockIndexValid := candidates
      chainMostWork := some chainMostWork
      chainActive := disconnectTips chainMostWork tip }

/-- A bound on the passes of a loop over the candidates. -/
def passes (candidates : List CBlockIndex) : Nat :=
  (candidates.length + 1) * (candidates.length + 1) + 1

/-- The chain after a known checkpoint is enforced. -/
def enforceCheckpoint
    (less : CBlockIndex → CBlockIndex → Bool)
    (connectTip : CBlockIndex → Option Reject) (nHeight : Nat)
    (pcheckpoint tip : CBlockIndex) (chain : ChainState CBlock) :
    Except Failure (ChainState CBlock) :=
  match Loop.run (enforcePass less nHeight pcheckpoint)
      (passes chain.setBlockIndexValid)
      ⟨⟨chain.setBlockIndexValid, 0⟩, pcheckpoint⟩ with
  | none => throw (.fault .outOfRange)
  | some loop =>
      pure (settle connectTip tip loop.chainMostWork loop.candidates chain)

/-- The chain after a block with a wrong hash is left. -/
def removeBlock
    (machine : Machine) (less : CBlockIndex → CBlockIndex → Bool)
    (connectTip : CBlockIndex → Option Reject) (nHeight : Nat)
    (hash : Uint256) (tip : CBlockIndex) (chain : ChainState CBlock) :
    Except Failure (ChainState CBlock) :=
  match Loop.run (removePass machine less nHeight hash)
      (passes chain.setBlockIndexValid) ⟨chain.setBlockIndexValid, 0⟩,
      tip.at? (nHeight - 1) with
  | none, _ => throw (.fault .outOfRange)
  | some _, none => throw (.fault .assertion)
  | some sweep, some pprev =>
      pure (settle connectTip tip pprev sweep.candidates chain)

/-- Whether the block of a chain at a height has a hash. -/
def hasHash
    (machine : Machine) (tip : CBlockIndex) (nHeight : Nat)
    (hash : Uint256) : Bool :=
  (tip.at? nHeight).any fun pindex => machine.blockHash pindex.item = hash

/-- `CheckActiveChain`. -/
def checkActiveChain
    (machine : Machine) (checkpoints : Checkpoints)
    (connectTip : CBlockIndex → Option Reject) (nHeight : Int32)
    (hash : Uint256) (state : TreeState) : Except Failure TreeState :=
  if nHeight.toInt < 1 then pure state
  else
    match state.chain.chainActive with
    | none => throw (.fault .outOfRange)
    | some tip =>
        let height := nHeight.toInt.toNat
        let less := blockIndexWorkComparator (state.fields machine)
        if hasHash machine tip height hash then pure state
        else
          match getLastCheckpoint machine checkpoints state with
          | some pcheckpoint => do
              let chain ←
                enforceCheckpoint less connectTip height pcheckpoint tip
                  state.chain
              pure { state with chain := chain }
          | none =>
              if tip.at? height = none then pure state
              else do
                let chain ←
                  removeBlock machine less connectTip height hash tip
                    state.chain
                pure { state with chain := chain }

section Cases

variable {machine : Machine} {checkpoints : Checkpoints}
  {connectTip : CBlockIndex → Option Reject} {nHeight : Int32}
  {hash : Uint256} {state : TreeState} {tip : CBlockIndex}
  (positive : 1 ≤ nHeight.toInt) (isActive : state.chain.chainActive = some tip)

include positive isActive

theorem checkActiveChain_of_hasHash
    (same : hasHash machine tip nHeight.toInt.toNat hash = true) :
    checkActiveChain machine checkpoints connectTip nHeight hash state =
      pure state := by
  rw [checkActiveChain, if_neg (by omega)]
  simp only [isActive]
  rw [if_pos same]

theorem checkActiveChain_of_checkpoint
    {pcheckpoint : CBlockIndex}
    (differs : hasHash machine tip nHeight.toInt.toNat hash = false)
    (found : getLastCheckpoint machine checkpoints state = some pcheckpoint) :
    checkActiveChain machine checkpoints connectTip nHeight hash state =
      (enforceCheckpoint (blockIndexWorkComparator (state.fields machine))
          connectTip nHeight.toInt.toNat pcheckpoint tip state.chain >>=
        fun chain => pure { state with chain := chain }) := by
  rw [checkActiveChain, if_neg (by omega)]
  simp only [isActive, found, differs, Bool.false_eq_true, if_false]

theorem checkActiveChain_of_none
    (differs : hasHash machine tip nHeight.toInt.toNat hash = false)
    (unknown : getLastCheckpoint machine checkpoints state = none) :
    checkActiveChain machine checkpoints connectTip nHeight hash state =
      if tip.at? nHeight.toInt.toNat = none then pure state
      else
        removeBlock machine (blockIndexWorkComparator (state.fields machine))
            connectTip nHeight.toInt.toNat hash tip state.chain >>=
          fun chain => pure { state with chain := chain } := by
  rw [checkActiveChain, if_neg (by omega)]
  simp only [isActive, unknown, differs, Bool.false_eq_true, if_false]

end Cases

end DSValue.Chain.CheckActiveChain

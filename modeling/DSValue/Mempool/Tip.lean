import DSValue.Mempool.Accept
import DSValue.Coins.Availability

/-!
# The memory pool along the active chain

`ConnectTip` connects a block and takes its transactions and their conflicts
out of the pool.  `DisconnectTip` disconnects the tip and gives its
transactions back to the pool by `AcceptToMemoryPool`; what is not accepted
is removed with everything that spends it.  The coinbase is skipped.

`CTxMemPool::check` is the predicate that both assert when the sanity checks
are on.
-/

namespace DSValue.Mempool.Tip

open DSValue.Lib
open DSValue.Core.Serialize
open DSValue.Core.Transaction
open DSValue.Core.Compress
open DSValue.Consensus.CheckLottoResult
open DSValue.Consensus.CheckBlock
open DSValue.Consensus.ConnectBlock
open DSValue.Coins.Undo
open DSValue.Coins.Disconnect
open DSValue.Mempool.Pool
open DSValue.Mempool.Accept

/--
The active tip, the undo data of the blocks below it, `pcoinsTip` and the
memory pool.
-/
structure State where
  tip : CBlockIndex
  undo : List CBlockUndo
  coins : CCoinsView
  pool : CTxMemPool

/-- How `ConnectTip` and `DisconnectTip` crash. -/
inductive TipFault where
  | fault (fault : Fault)
  | remove (fault : RemoveFault)
  | disconnect (failure : DisconnectFailure)

def orRemove {α : Type} : Except RemoveFault α → Except TipFault α
  | .ok value => .ok value
  | .error fault => .error (.remove fault)

theorem orRemove_eq_ok
    {α : Type} {run : Except RemoveFault α} {value : α} :
    orRemove run = .ok value ↔ run = .ok value := by
  cases run <;> simp [orRemove]

/-- `WriteChainState`: behind a flush there are no pruned coins. -/
def writeChainState (fFlush : Bool) (view : CCoinsView) : CCoinsView :=
  if fFlush then
    { view with
      coins := fun txid =>
        (view.coins txid).filter fun coins => !coins.isPruned }
  else view

/-- What `ConnectTip` does to the pool for a transaction of the block. -/
def confirm
    (txHash : CTransaction → Uint256) (fuel : Nat) (state : Removal)
    (tx : CTransaction) : Except RemoveFault Removal := do
  let unused ← remove txHash fuel tx false ⟨state.pool, []⟩
  removeConflicts txHash fuel tx ⟨unused.pool, state.removed⟩

/-- `ConnectTip`.  A block that is rejected leaves everything as it is. -/
def connectTip
    (node : Node) (fuel : Nat) (fFlush : Bool) (block : CBlock)
    (state : State) : Except TipFault State :=
  match connectBlock node state.coins (some state.tip) block false with
  | .error (.fault fault) => throw (.fault fault)
  | .error (.reject _) => pure state
  | .ok coins =>
      match updateAllCoins node (state.tip.height + 1) state.coins
          block.vtx with
      | .error fault => throw (.fault fault)
      | .ok (_, blockUndo) => do
          let removal ←
            orRemove
              (block.vtx.foldlM (confirm node.txHash fuel) ⟨state.pool, []⟩)
          pure ⟨.child state.tip block, blockUndo :: state.undo,
            writeChainState fFlush coins, removal.pool⟩

/-- What `DisconnectTip` does to the pool for a transaction of the block. -/
def resurrect
    (node : Node) (relay : Relay) (fuel : Nat) (pprev : CBlockIndex)
    (coins : CCoinsView) (pool : CTxMemPool) (tx : CTransaction) :
    Except TipFault CTxMemPool :=
  if tx.isCoinBase then pure pool
  else
    match acceptToMemoryPool node relay pprev coins pool tx false false with
    | .ok next => pure next
    | .error (.fault fault) => throw (.fault fault)
    | .error (.reject _) => do
        let removal ← orRemove (remove node.txHash fuel tx true ⟨pool, []⟩)
        pure removal.pool

/--
`DisconnectTip`, with the file of the undo data.  The active chain is
shortened only at the end.
-/
def disconnectTip
    (node : Node) (relay : Relay) (keys : PubKeyOps)
    (hash : List UInt8 → Uint256) (fuel : Nat) (fFlush : Bool)
    (file : List UInt8) (state : State) : Except TipFault State :=
  match state.tip with
  | .root _ => pure state
  | .child pprev block =>
      match disconnectBlock node keys hash state.coins pprev block file with
      | .error (.error _) => pure state
      | .error failure => throw (.disconnect failure)
      | .ok (_, false) => pure state
      | .ok (restored, true) => do
          let pool ←
            block.vtx.foldlM
              (resurrect node relay fuel pprev
                (writeChainState fFlush restored)) state.pool
          pure ⟨pprev, state.undo.tail, writeChainState fFlush restored, pool⟩

/-- `CTxMemPool::check`. -/
structure Checks
    (txHash : CTransaction → Uint256) (pool : CTxMemPool)
    (view : CCoinsView) : Prop where
  inputs :
    ∀ hash tx, pool.mapTx hash = some tx → ∀ txin ∈ tx.vin,
      match pool.mapTx txin.prevout.hash with
      | some tx2 =>
          ∃ txout, tx2.vout[txin.prevout.n.toNat]? = some txout ∧
            txout.isNull = false
      | none =>
          ∃ coins, view.coins txin.prevout.hash = some coins ∧
            coins.isAvailable txin.prevout.n.toNat = true
  links : Linked txHash pool

/-- The operations on the pool. -/
inductive Kind where
  | accept
  | connect
  | disconnect
  | remove
  | removeConflicts
deriving DecidableEq

section Steps

variable (node : Node) (keys : PubKeyOps) (hash : List UInt8 → Uint256)
  (txs : Set CTransaction)

/--
One operation, on transactions of a set.  The undo data of the tip are read
back as they were written; a fault ends the run.
-/
inductive Step : Kind → State → State → Prop
  | accept {state : State} {next : CTxMemPool} (snapshot : Snapshot)
      (relay : Relay) (tx : CTransaction) (fLimitFree fRejectInsaneFee : Bool)
      (known : tx ∈ txs)
      (ran :
        acceptToMemoryPool (during node snapshot state.tip) relay state.tip
          state.coins state.pool tx fLimitFree fRejectInsaneFee = .ok next) :
      Step .accept state { state with pool := next }
  | connect {state next : State} (snapshot : Snapshot) (fuel : Nat)
      (fFlush : Bool) (block : CBlock)
      (known : ∀ tx ∈ block.vtx, tx ∈ txs)
      (fresh : node.blockHash block ≠ node.hashGenesisBlock)
      (ran :
        connectTip (during node snapshot state.tip) fuel fFlush block state =
          .ok next) :
      Step .connect state next
  | disconnect {state next : State} (snapshot : Snapshot) (relay : Relay)
      (fuel : Nat) (fFlush : Bool) (file : List UInt8)
      (stored :
        ∀ pprev block, state.tip = .child pprev block →
          ∃ blockUndo, state.undo.head? = some blockUndo ∧
            readFromDisk keys hash (node.blockHash pprev.item) file =
              some blockUndo)
      (ran :
        disconnectTip (during node snapshot state.tip) relay keys hash fuel
          fFlush file state = .ok next) :
      Step .disconnect state next
  | remove {state : State} {removed : Removal} (fuel : Nat)
      (tx : CTransaction) (known : tx ∈ txs)
      (ran :
        Pool.remove node.txHash fuel tx true ⟨state.pool, []⟩ =
          .ok removed) :
      Step .remove state { state with pool := removed.pool }
  | removeConflicts {state : State} {removed : Removal} (fuel : Nat)
      (tx : CTransaction) (known : tx ∈ txs)
      (ran :
        Pool.removeConflicts node.txHash fuel tx ⟨state.pool, []⟩ =
          .ok removed) :
      Step .removeConflicts state { state with pool := removed.pool }

/-- No transaction of the pool spends the coinbase of the tip. -/
def SparesCoinBase (state : State) : Prop :=
  ∀ pprev block, state.tip = .child pprev block →
    ∀ coinBaseTx ∈ block.vtx, coinBaseTx.isCoinBase = true →
      ∀ txid tx, state.pool.mapTx txid = some tx →
        ∀ txin ∈ tx.vin, txin.prevout.hash ≠ node.txHash coinBaseTx

/-- A step that disconnects only where the coinbase is not spent. -/
def CleanStep (state next : State) : Prop :=
  ∃ kind, Step node keys hash txs kind state next ∧
    (kind = .disconnect → SparesCoinBase node state)

end Steps

end DSValue.Mempool.Tip

import Mathlib.Data.Finset.Basic
import DSValue.Lib.System
import DSValue.Mempool.Accept

/-!
# Choosing the transactions of a block

`CreateNewBlock` goes through the pool and puts what spends confirmed outputs
into a heap.  What spends outputs of the pool waits as a `COrphan` until the
transactions that it depends on are in the block.  The loop takes the first
transaction of the heap, skips it or puts it into the block, and then moves what
no longer waits to the heap.

The priorities are `double`s and a parameter here.  The heap gives any of the
transactions that no other one is above of.
-/

namespace DSValue.Miner.BlockTemplate

open DSValue.Lib
open DSValue.Core.Serialize
open DSValue.Core.Transaction
open DSValue.Script.Scan
open DSValue.Consensus.TxOut
open DSValue.Consensus.CheckLottoResult
open DSValue.Consensus.CheckBlock
open DSValue.Consensus.ConnectBlock
open DSValue.Mempool.Pool
open DSValue.Mempool.Accept

/-! ## Final transactions -/

/-- `LOCKTIME_THRESHOLD`. -/
def LOCKTIME_THRESHOLD : Int := 500000000

/-- `CTxIn::IsFinal`. -/
def isFinal (txin : CTxIn) : Bool := txin.nSequence = 0xffffffff

/-- `IsFinalTx`. -/
def isFinalTx
    (node : Node) (tx : CTransaction) (nBlockHeight : Nat) (nBlockTime : Int) :
    Bool :=
  let nBlockHeight :=
    if nBlockHeight = 0 then node.chainActive.height else nBlockHeight
  let nBlockTime := if nBlockTime = 0 then node.nAdjustedTime else nBlockTime
  let nLockTime : Int := tx.nLockTime.toNat
  tx.nLockTime = 0 ||
    decide (nLockTime <
      if nLockTime < LOCKTIME_THRESHOLD then (nBlockHeight : Int) else nBlockTime) ||
    tx.vin.all isFinal

/-! ## Priorities -/

/--
The computations with `double`s.  `computePriority` gets the values and the
confirmations of the confirmed inputs, and `belowRelayFee` compares with
`nMinRelayTxFee`.
-/
structure Priorities (D : Type) where
  computePriority : List (Int64 × Int) → CTransaction → D
  feePerKb : Int64 → Nat → D
  less : D → D → Bool
  same : D → D → Bool
  allowFree : D → Bool
  belowRelayFee : D → Bool

/-- `TxPriority`. -/
structure TxPriority (D : Type) where
  dPriority : D
  dFeePerKb : D
  tx : CTransaction

/-- `TxPriorityCompare`. -/
def Priorities.compare {D : Type} (priorities : Priorities D) (byFee : Bool)
    (a b : TxPriority D) : Bool :=
  if byFee then
    if priorities.same a.dFeePerKb b.dFeePerKb then
      priorities.less a.dPriority b.dPriority
    else priorities.less a.dFeePerKb b.dFeePerKb
  else
    if priorities.same a.dPriority b.dPriority then
      priorities.less a.dFeePerKb b.dFeePerKb
    else priorities.less a.dPriority b.dPriority

/-- `COrphan`. -/
structure COrphan (D : Type) where
  ptx : CTransaction
  setDependsOn : Finset Uint256
  dPriority : D
  dFeePerKb : D

/-- What `CreateNewBlock` reads besides the pool and the coins. -/
structure MinerArgs (D : Type) where
  node : Node
  priorities : Priorities D
  fDebug : Bool
  blockmaxsize : Nat
  blockprioritysize : Nat
  blockminsize : Nat

variable {D : Type}

/-- `nBlockMaxSize`. -/
def MinerArgs.nBlockMaxSize (args : MinerArgs D) : Nat :=
  max 1000 (min (MAX_BLOCK_SIZE - 1000) args.blockmaxsize)

/-- `nBlockPrioritySize`. -/
def MinerArgs.nBlockPrioritySize (args : MinerArgs D) : Nat :=
  min args.nBlockMaxSize args.blockprioritysize

/-- `nBlockMinSize`. -/
def MinerArgs.nBlockMinSize (args : MinerArgs D) : Nat :=
  min args.nBlockMaxSize args.blockminsize

/-- `pindexPrev->nHeight + 1`. -/
def MinerArgs.nHeight (args : MinerArgs D) : Nat :=
  args.node.chainActive.height + 1

/-! ## The transactions of the pool -/

/--
The heap, the orphans and who depends on a transaction.  A `COrphan*` is a
position in `vOrphan`; the orphan there may have been deleted.
-/
structure Queue (D : Type) where
  vecPriority : List (TxPriority D)
  vOrphan : List (Option (COrphan D))
  mapDependers : Uint256 → List Nat

/-- What the loop over the inputs of a transaction has found. -/
structure ScannedInputs where
  setDependsOn : Finset Uint256
  depended : List Uint256
  nTotalIn : Int64
  confirmed : List (Int64 × Int)

/-- The loop over the inputs, with the value of `fMissingInputs`. -/
def scanInputs (args : MinerArgs D) (view : CCoinsView) (pool : CTxMemPool) :
    List CTxIn → ScannedInputs → Except Fault (ScannedInputs × Bool)
  | [], scanned => pure (scanned, false)
  | txin :: rest, scanned =>
      match view.coins txin.prevout.hash with
      | none =>
          match pool.mapTx txin.prevout.hash with
          | none =>
              if args.fDebug then throw .assertion else pure (scanned, true)
          | some parent =>
              match parent.vout[txin.prevout.n.toNat]? with
              | none => throw .outOfRange
              | some txout =>
                  scanInputs args view pool rest
                    { scanned with
                      setDependsOn :=
                        insert txin.prevout.hash scanned.setDependsOn
                      depended := scanned.depended ++ [txin.prevout.hash]
                      nTotalIn := scanned.nTotalIn + txout.nValue }
      | some coins =>
          match coins.vout[txin.prevout.n.toNat]? with
          | none => throw .outOfRange
          | some txout =>
              scanInputs args view pool rest
                { scanned with
                  nTotalIn := scanned.nTotalIn + txout.nValue
                  confirmed :=
                    scanned.confirmed ++
                      [(txout.nValue,
                        (args.node.chainActive.height : Int) -
                          coins.nHeight.toInt + 1)] }

/-- `mapDependers[hash].push_back(porphan)` for each of the hashes. -/
def addDependers (porphan : Nat) (mapDependers : Uint256 → List Nat)
    (depended : List Uint256) : Uint256 → List Nat :=
  depended.foldl
    (fun mapDependers hash =>
      Function.update mapDependers hash (mapDependers hash ++ [porphan]))
    mapDependers

/--
One round of the loop over the pool.  An orphan with missing inputs is deleted,
while `mapDependers` still points to it.
-/
def enqueue (args : MinerArgs D) (view : CCoinsView) (pool : CTxMemPool)
    (queue : Queue D) (tx : CTransaction) : Except Fault (Queue D) :=
  if tx.isCoinBase || !isFinalTx args.node tx args.nHeight 0 then pure queue
  else do
    let (scanned, fMissingInputs) ←
      scanInputs args view pool tx.vin ⟨∅, [], 0, []⟩
    let mapDependers :=
      addDependers queue.vOrphan.length queue.mapDependers scanned.depended
    if fMissingInputs then
      if scanned.setDependsOn = ∅ then pure queue
      else
        pure
          { queue with
            vOrphan := queue.vOrphan ++ [none]
            mapDependers := mapDependers }
    else do
      let nTxSize := tx.serialize.length
      let nValueOut ← getValueOut tx
      let dPriority := args.priorities.computePriority scanned.confirmed tx
      let dFeePerKb :=
        args.priorities.feePerKb (scanned.nTotalIn - nValueOut) nTxSize
      if scanned.setDependsOn = ∅ then
        pure
          { queue with
            vecPriority := queue.vecPriority ++ [⟨dPriority, dFeePerKb, tx⟩] }
      else
        pure
          { queue with
            vOrphan :=
              queue.vOrphan ++
                [some ⟨tx, scanned.setDependsOn, dPriority, dFeePerKb⟩]
            mapDependers := mapDependers }

/-- The loop over the pool, whose transactions are `entries`. -/
def collect (args : MinerArgs D) (view : CCoinsView) (pool : CTxMemPool)
    (entries : List CTransaction) : Except Fault (Queue D) :=
  entries.foldlM (enqueue args view pool) ⟨[], [], fun _ => []⟩

/-! ## The loop over the heap -/

/-- What the loop over the heap works on. -/
structure Template (D : Type) where
  queue : Queue D
  view : CCoinsView
  vtx : List CTransaction
  vTxFees : List Int64
  vTxSigOps : List Nat
  nBlockSize : Nat
  nBlockSigOps : Nat
  nFees : Int64
  nCurBetValue : Int64
  fSortedByFee : Bool

/-- One round of the loop over the orphans that depend on a transaction. -/
def release (hash : Uint256) (queue : Queue D) (porphan : Nat) :
    Except Fault (Queue D) :=
  match queue.vOrphan[porphan]? with
  | some (some orphan) =>
      if orphan.setDependsOn = ∅ then pure queue
      else
        let setDependsOn := orphan.setDependsOn.erase hash
        let vOrphan :=
          queue.vOrphan.set porphan
            (some { orphan with setDependsOn := setDependsOn })
        if setDependsOn = ∅ then
          pure
            { queue with
              vecPriority :=
                queue.vecPriority ++
                  [⟨orphan.dPriority, orphan.dFeePerKb, orphan.ptx⟩]
              vOrphan := vOrphan }
        else pure { queue with vOrphan := vOrphan }
  | _ => throw .outOfRange

/-- Putting a transaction into the block. -/
def add (args : MinerArgs D) (template : Template D) (tx : CTransaction)
    (nTxFees : Int64) (nTxSigOps : Nat) : Except Fault (Template D) := do
  let view ← updateCoins args.node template.view args.nHeight tx
  let nBetValue ←
    getLottoValueFromTx args.node.network args.node.chainActive.height tx
  let queue ←
    (template.queue.mapDependers (args.node.txHash tx)).foldlM
      (release (args.node.txHash tx)) template.queue
  pure
    { template with
      queue := queue
      view := view
      vtx := template.vtx ++ [tx]
      vTxFees := template.vTxFees ++ [nTxFees]
      vTxSigOps := template.vTxSigOps ++ [nTxSigOps]
      nBlockSize := template.nBlockSize + tx.serialize.length
      nBlockSigOps := template.nBlockSigOps + nTxSigOps
      nFees := template.nFees + nTxFees
      nCurBetValue := template.nCurBetValue + nBetValue }

/-- The checks of a transaction against the coins, and putting it in. -/
def tryAdd (args : MinerArgs D) (template : Template D) (tx : CTransaction) :
    Except Fault (Template D) :=
  if !template.view.haveInputs tx then pure template
  else do
    let nValueIn ← template.view.getValueIn tx
    let nValueOut ← getValueOut tx
    let nP2SHSigOps ← getP2SHSigOpCount template.view tx
    let nTxSigOps := getLegacySigOpCount tx + nP2SHSigOps
    if MAX_BLOCK_SIGOPS ≤ template.nBlockSigOps + nTxSigOps then pure template
    else
      match checkInputs args.node template.view args.nHeight true true tx with
      | .error (.fault fault) => throw fault
      | .error (.reject _) => pure template
      | .ok () => do
          let valid ←
            isTransactionValid args.node.network args.node.chainActive.height tx
          if valid then
            add args template tx (nValueIn - nValueOut) nTxSigOps
          else pure template

/-- Whether the heap is sorted by fee from a transaction on. -/
def sortsByFee (args : MinerArgs D) (template : Template D)
    (entry : TxPriority D) : Bool :=
  template.fSortedByFee ||
    decide (args.nBlockPrioritySize ≤
      template.nBlockSize + entry.tx.serialize.length) ||
    !args.priorities.allowFree entry.dPriority

/-- One round of the loop, with the transaction that was taken off the heap. -/
def consider (args : MinerArgs D) (template : Template D)
    (entry : TxPriority D) : Except Fault (Template D) :=
  if args.nBlockMaxSize ≤ template.nBlockSize + entry.tx.serialize.length then
    pure template
  else if MAX_BLOCK_SIGOPS ≤
      template.nBlockSigOps + getLegacySigOpCount entry.tx then
    pure template
  else if template.fSortedByFee &&
      args.priorities.belowRelayFee entry.dFeePerKb &&
      decide (args.nBlockMinSize ≤
        template.nBlockSize + entry.tx.serialize.length) then
    pure template
  else
    tryAdd args
      { template with fSortedByFee := sortsByFee args template entry } entry.tx

/-- Whether no other transaction is above one of the heap. -/
def isTop (args : MinerArgs D) (template : Template D) (entry : TxPriority D) :
    Bool :=
  template.queue.vecPriority.all fun other =>
    !args.priorities.compare template.fSortedByFee entry other

/-- Taking a transaction off the heap, by its position there. -/
def pop (template : Template D) (i : Nat) : Template D :=
  { template with
    queue :=
      { template.queue with
        vecPriority := template.queue.vecPriority.eraseIdx i } }

/-- One round of the loop over the heap. -/
def takeNext (args : MinerArgs D) (template : Template D) (i : Nat) :
    Option (Except Fault (Template D)) :=
  match template.queue.vecPriority[i]? with
  | none => none
  | some entry =>
      if isTop args template entry then
        some (consider args (pop template i) entry)
      else none

/-- The block before the loop. -/
def start (args : MinerArgs D) (view : CCoinsView) (queue : Queue D) :
    Template D where
  queue := queue
  view := view
  vtx := []
  vTxFees := []
  vTxSigOps := []
  nBlockSize := 1000
  nBlockSigOps := 100
  nFees := 0
  nCurBetValue := 0
  fSortedByFee := decide (args.nBlockPrioritySize ≤ 0)

/-- The loop, whose actions are the positions that the heap gives. -/
def selection (args : MinerArgs D) (view : CCoinsView) (queue : Queue D) :
    System (Template D) Nat where
  init := start args view queue
  step template i := (takeNext args template i).bind Except.toOption

/-! ## The block -/

/-- The coinbase, with the prizes of the draw. -/
def coinBaseOf (args : MinerArgs D) (scriptPubKeyIn : CScript)
    (nFees : Int64) (vTxOut : List CTxOut) : CTransaction where
  nVersion := 1
  vin := [⟨⟨0, -1⟩, [0x00, 0x00], 0xffffffff⟩]
  vout := ⟨getBlockValue args.nHeight nFees, scriptPubKeyIn⟩ :: vTxOut
  nLockTime := 0

end DSValue.Miner.BlockTemplate

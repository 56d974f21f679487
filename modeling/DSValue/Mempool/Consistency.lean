import DSValue.Mempool.Tip

/-!
# The memory pool stays consistent

What `CTxMemPool::check` asserts holds along every run in which
`DisconnectTip` never disconnects a block whose coinbase is spent by a
transaction of the pool.

An input of a pool transaction is backed by a transaction of the pool or by
an available output.  For the step from the one to the other, coins have to
be authentic: an available output is an output of the transaction with its
hash.  While the tip is being disconnected inputs may also wait for a
transaction of the block that has not had its turn.
-/

namespace DSValue.Mempool.Consistency

open DSValue.Lib
open DSValue.Core.Serialize
open DSValue.Core.Transaction
open DSValue.Core.Compress
open DSValue.Consensus.CheckLottoResult
open DSValue.Consensus.CheckBlock
open DSValue.Consensus.ConnectBlock
open DSValue.Coins.Undo
open DSValue.Coins.Disconnect
open DSValue.Coins.Reversal
open DSValue.Coins.Availability
open DSValue.Mempool.Pool
open DSValue.Mempool.Accept
open DSValue.Mempool.Tip

/-! ## The invariant -/

/--
What hashing is for: on the given transactions hashes do not collide, and a
hash cannot be used before the transaction is there.
-/
structure Ideal
    (txHash : CTransaction → Uint256) (txs : Set CTransaction)
    (rank : Uint256 → Nat) : Prop where
  injective :
    ∀ first ∈ txs, ∀ second ∈ txs,
      txHash first = txHash second → first = second
  rising :
    ∀ tx ∈ txs, tx.isCoinBase = false →
      ∀ txin ∈ tx.vin, rank txin.prevout.hash < rank (txHash tx)

/-- The output exists in a transaction of the pool or among the coins. -/
def Backed (pool : CTxMemPool) (view : CCoinsView) (outpoint : COutPoint) :
    Prop :=
  (∃ tx, pool.mapTx outpoint.hash = some tx ∧
    (createdAt tx outpoint.n).isSome = true) ∨
  (unspentAt view outpoint).isSome = true

/-- The available outputs are outputs of the transactions of their hashes. -/
def Authentic
    (txHash : CTransaction → Uint256) (txs : Set CTransaction)
    (view : CCoinsView) : Prop :=
  ∀ outpoint, (unspentAt view outpoint).isSome = true →
    ∃ tx ∈ txs, txHash tx = outpoint.hash ∧
      (createdAt tx outpoint.n).isSome = true

/-- The part of the invariant that is about the pool alone. -/
structure SoundPool
    (txHash : CTransaction → Uint256) (txs : Set CTransaction)
    (rank : Uint256 → Nat) (pool : CTxMemPool) : Prop where
  linked : Linked txHash pool
  known :
    ∀ hash tx, pool.mapTx hash = some tx → tx ∈ txs ∧ tx.isCoinBase = false
  bounded : ∃ bound, ∀ hash tx, pool.mapTx hash = some tx → rank hash < bound

/-- The inputs that a block spent were authentic. -/
def RecordedBlock
    (txHash : CTransaction → Uint256) (txs : Set CTransaction)
    (block : CBlock) (blockUndo : CBlockUndo) : Prop :=
  (∀ tx ∈ block.vtx, tx ∈ txs) ∧
  ∀ entry ∈ undoOrder block.vtx blockUndo, ∀ vprevout,
    entry.2 = some vprevout → ∀ record ∈ entry.1.vin.zip vprevout,
      ∃ tx ∈ txs, txHash tx = record.1.prevout.hash ∧
        (createdAt tx record.1.prevout.n).isSome = true

/-- The undo data of the blocks below the tip. -/
def Recorded
    (txHash : CTransaction → Uint256) (txs : Set CTransaction) :
    CBlockIndex → List CBlockUndo → Prop
  | .child pprev block, blockUndo :: rest =>
      RecordedBlock txHash txs block blockUndo ∧
        Recorded txHash txs pprev rest
  | _, _ => True

/-- What holds between the operations. -/
structure Consistent
    (txHash : CTransaction → Uint256) (txs : Set CTransaction)
    (rank : Uint256 → Nat) (state : State) : Prop where
  pool : SoundPool txHash txs rank state.pool
  backed :
    ∀ hash tx, state.pool.mapTx hash = some tx → ∀ txin ∈ tx.vin,
      Backed state.pool state.coins txin.prevout
  authentic : Authentic txHash txs state.coins
  recorded : Recorded txHash txs state.tip state.undo

section Invariant

variable {txHash : CTransaction → Uint256} {txs : Set CTransaction}
  {rank : Uint256 → Nat} {pool next : CTxMemPool}

theorem SoundPool.ranked
    (ideal : Ideal txHash txs rank) (sound : SoundPool txHash txs rank pool) :
    ∃ bound, Ranked rank bound pool := by
  rcases sound.bounded with ⟨bound, below⟩
  refine ⟨bound, below, ?_⟩
  intro hash tx found txin member
  rcases sound.known hash tx found with ⟨inTxs, regular⟩
  have rises := ideal.rising tx inTxs regular txin member
  rw [sound.linked.keyed hash tx found] at rises
  exact rises

/-- The pool holds no other transaction of the same hash. -/
theorem SoundPool.same
    (ideal : Ideal txHash txs rank) (sound : SoundPool txHash txs rank pool)
    {tx : CTransaction} (known : tx ∈ txs) :
    ∀ found, pool.mapTx (txHash tx) = some found → found = tx := by
  intro found isFound
  exact ideal.injective found (sound.known _ found isFound).1 tx known
    (sound.linked.keyed _ found isFound)

theorem SoundPool.of_kept
    (sound : SoundPool txHash txs rank pool) (linked : Linked txHash next)
    (kept :
      ∀ hash tx, next.mapTx hash = some tx → pool.mapTx hash = some tx) :
    SoundPool txHash txs rank next := by
  rcases sound.bounded with ⟨bound, below⟩
  exact ⟨linked,
    fun hash tx found => sound.known hash tx (kept hash tx found),
    bound, fun hash tx found => below hash tx (kept hash tx found)⟩

/-- A removed transaction does not back an input that is left. -/
theorem source_kept
    (shrinks : Shrinks pool next) {outpoint : COutPoint} {tx : CTransaction}
    (found : pool.mapTx outpoint.hash = some tx)
    (created : (createdAt tx outpoint.n).isSome = true)
    (spent : next.mapNextTx outpoint ≠ none) :
    next.mapTx outpoint.hash = some tx := by
  cases left : next.mapTx outpoint.hash with
  | some other =>
      have before := shrinks.kept _ other left
      rw [found, Option.some.injEq] at before
      rw [before]
  | none =>
      rcases Option.isSome_iff_exists.mp created with ⟨txout, isOutput⟩
      have inside :=
        (List.getElem?_eq_some_iff.mp (getElem?_of_createdAt isOutput).1).1
      have absent := shrinks.closed _ tx found left _ inside
      rw [UInt32.ofNat_toNat] at absent
      exact absurd absent spent

theorem spent_of_mem
    (linked : Linked txHash pool) {hash : Uint256} {tx : CTransaction}
    (found : pool.mapTx hash = some tx) {txin : CTxIn}
    (member : txin ∈ tx.vin) : pool.mapNextTx txin.prevout ≠ none := by
  rcases linked.next_of_mem found member with ⟨i, isNext⟩
  rw [isNext]
  exact Option.some_ne_none _

/-- Removal keeps the inputs that are left backed. -/
theorem Backed.of_shrinks
    {view : CCoinsView} {outpoint : COutPoint}
    (backed : Backed pool view outpoint) (shrinks : Shrinks pool next)
    (spent : next.mapNextTx outpoint ≠ none) :
    Backed next view outpoint := by
  rcases backed with ⟨tx, found, created⟩ | isLeft
  · exact Or.inl ⟨tx, source_kept shrinks found created spent, created⟩
  · exact Or.inr isLeft

/-- The invariant gives what `check` asserts. -/
theorem Consistent.checks
    {state : State} (ideal : Ideal txHash txs rank)
    (consistent : Consistent txHash txs rank state) :
    Checks txHash state.pool state.coins := by
  refine ⟨?_, consistent.pool.linked⟩
  intro hash tx found txin member
  have backed := consistent.backed hash tx found txin member
  cases parent : state.pool.mapTx txin.prevout.hash with
  | none =>
      rcases backed with ⟨other, isOther, -⟩ | isLeft
      · rw [parent] at isOther
        cases isOther
      · rw [unspentAt] at isLeft
        cases known : state.coins.coins txin.prevout.hash with
        | none =>
            rw [known] at isLeft
            cases isLeft
        | some coins =>
            rw [known] at isLeft
            refine ⟨coins, rfl, ?_⟩
            rw [isAvailable_eq]
            exact isLeft
  | some tx2 =>
      have created : (createdAt tx2 txin.prevout.n).isSome = true := by
        rcases backed with ⟨other, isOther, created⟩ | isLeft
        · rw [parent, Option.some.injEq] at isOther
          rw [isOther]
          exact created
        · rcases consistent.authentic _ isLeft with
            ⟨other, inTxs, isHash, created⟩
          rw [← consistent.pool.linked.keyed _ tx2 parent] at isHash
          rw [← ideal.injective other inTxs tx2
            (consistent.pool.known _ tx2 parent).1 isHash]
          exact created
      rcases Option.isSome_iff_exists.mp created with ⟨txout, isOutput⟩
      exact ⟨txout, getElem?_of_createdAt isOutput⟩

end Invariant

/-! ## Adding and removing -/

section Operations

variable {txs : Set CTransaction} {rank : Uint256 → Nat}

/-- What an added transaction means for the pool. -/
structure Adds
    (txHash : CTransaction → Uint256) (view : CCoinsView)
    (tx : CTransaction) (pool next : CTxMemPool) : Prop where
  kept : ∀ hash other, pool.mapTx hash = some other →
    next.mapTx hash = some other
  isNew : next.mapTx (txHash tx) = some tx
  source : ∀ hash other, next.mapTx hash = some other →
    other = tx ∨ pool.mapTx hash = some other
  backed : ∀ txin ∈ tx.vin, Backed pool view txin.prevout

theorem backed_of_poolView
    {pool : CTxMemPool} {view : CCoinsView} {txin : CTxIn}
    (available : ((poolView pool view).outputFor? txin).isSome = true) :
    Backed pool view txin.prevout := by
  rw [outputFor?_eq, unspentAt, poolView] at available
  cases known : view.coins txin.prevout.hash with
  | some coins =>
      simp only [known] at available
      right
      rw [unspentAt, known]
      exact available
  | none =>
      simp only [known] at available
      cases inPool : pool.mapTx txin.prevout.hash with
      | none =>
          rw [inPool] at available
          cases available
      | some tx =>
          rw [inPool] at available
          exact Or.inl ⟨tx, inPool, available⟩

/-- An accepted transaction keeps the pool sound, and its inputs are backed. -/
theorem adds_of_accepts
    {node : Node} {view : CCoinsView} {pool next : CTxMemPool}
    {tx : CTransaction} (known : tx ∈ txs)
    (sound : SoundPool node.txHash txs rank pool)
    (accepts : Accepts node view pool tx next) :
    SoundPool node.txHash txs rank next ∧
      Adds node.txHash view tx pool next := by
  have spends := accepts.spends
  simp only [checkSpends, bind_eq_ok, require_eq_ok] at spends
  rcases spends with ⟨_, isNew, _, noConflict, _, _, _, _, inputs⟩
  have fresh : pool.mapTx (node.txHash tx) = none := by
    simpa [CTxMemPool.contains] using isNew
  have free : ∀ txin ∈ tx.vin, pool.mapNextTx txin.prevout = none := by
    intro txin member
    simpa using List.all_eq_true.mp noConflict txin member
  have distinct : (tx.vin.map CTxIn.prevout).Nodup := by
    have checked := accepts.checked
    simp only [checkTransaction, bind_eq_ok, require_eq_ok] at checked
    rcases checked with ⟨_, _, _, _, _, _, _, _, _, distinct, _⟩
    exact of_decide_eq_true distinct
  have adds : Adds node.txHash view tx pool next := by
    rw [accepts.added]
    constructor
    · intro hash other found
      have differs : hash ≠ node.txHash tx := by
        intro isHash
        rw [isHash, fresh] at found
        cases found
      exact (Function.update_of_ne differs _ _).trans found
    · exact Function.update_self _ _ _
    · intro hash other found
      by_cases isHash : hash = node.txHash tx
      · left
        rw [isHash] at found
        exact Option.some.inj
          (found.symm.trans (Function.update_self _ _ _))
      · right
        exact (Function.update_of_ne isHash _ _).symm.trans found
    · intro txin member
      apply backed_of_poolView
      rw [CCoinsView.haveInputs, accepts.regular, Bool.false_or,
        List.all_eq_true] at inputs
      exact inputs txin member
  rcases sound.bounded with ⟨bound, below⟩
  have linked : Linked node.txHash next := by
    rw [accepts.added]
    exact sound.linked.addUnchecked fresh distinct free
  refine ⟨⟨linked, ?_, max bound (rank (node.txHash tx) + 1), ?_⟩, adds⟩
  · intro hash other found
    rcases adds.source hash other found with rfl | before
    · exact ⟨known, accepts.regular⟩
    · exact sound.known hash other before
  · intro hash other found
    rcases adds.source hash other found with rfl | before
    · rw [← linked.keyed hash other found]
      exact lt_max_of_lt_right (Nat.lt_succ_self _)
    · exact lt_max_of_lt_left (below hash other before)

theorem Backed.of_adds
    {txHash : CTransaction → Uint256} {view : CCoinsView}
    {pool next : CTxMemPool} {tx : CTransaction} {outpoint : COutPoint}
    (backed : Backed pool view outpoint)
    (adds : Adds txHash view tx pool next) : Backed next view outpoint := by
  rcases backed with ⟨other, found, created⟩ | isLeft
  · exact Or.inl ⟨other, adds.kept _ other found, created⟩
  · exact Or.inr isLeft

/-- Recursive removal, with whatever room it was given. -/
theorem removes_of_remove
    {txHash : CTransaction → Uint256} {fuel : Nat} {tx : CTransaction}
    {state removed : Removal} (ideal : Ideal txHash txs rank)
    (ran : remove txHash fuel tx true state = .ok removed)
    (sound : SoundPool txHash txs rank state.pool) (known : tx ∈ txs) :
    Removes txHash tx state.pool removed.pool := by
  rcases sound.ranked ideal with ⟨bound, ranked⟩
  rcases remove_spec (max fuel (bound + 1)) state tx sound.linked ranked
      (sound.same ideal known)
      (lt_max_of_lt_right (by omega)) with ⟨result, ranMore, removes⟩
  rw [remove_mono (le_max_left fuel (bound + 1)) ran, Except.ok.injEq]
    at ranMore
  rw [ranMore]
  exact removes

theorem removesConflicts_of_removeConflicts
    {txHash : CTransaction → Uint256} {fuel : Nat} {tx : CTransaction}
    {state removed : Removal} (ideal : Ideal txHash txs rank)
    (ran : removeConflicts txHash fuel tx state = .ok removed)
    (sound : SoundPool txHash txs rank state.pool) :
    RemovesConflicts txHash tx tx.vin state.pool removed.pool := by
  rcases sound.ranked ideal with ⟨bound, ranked⟩
  rcases removeConflicts_spec tx sound.linked ranked
      (lt_max_of_lt_right (Nat.lt_succ_self bound) :
        bound < max fuel (bound + 1)) with
    ⟨result, ranMore, removes⟩
  rw [removeConflicts_mono (le_max_left fuel (bound + 1)) ran,
    Except.ok.injEq] at ranMore
  rw [ranMore]
  exact removes

end Operations

/-! ## Connecting the tip -/

/-- What `ConnectTip` does to the pool for transactions of a block. -/
structure Confirms
    (txHash : CTransaction → Uint256) (done : List CTransaction)
    (pool next : CTxMemPool) : Prop where
  linked : Linked txHash next
  kept : ∀ hash tx, next.mapTx hash = some tx → pool.mapTx hash = some tx
  dropped :
    ∀ hash tx, pool.mapTx hash = some tx → next.mapTx hash = none →
      (∃ mined ∈ done, txHash mined = hash) ∨
        ∀ i, i < tx.vout.length →
          next.mapNextTx ⟨hash, UInt32.ofNat i⟩ = none
  free :
    ∀ mined ∈ done, ∀ txin ∈ mined.vin,
      next.mapNextTx txin.prevout = none

section Connecting

variable {txHash : CTransaction → Uint256} {txs : Set CTransaction}
  {rank : Uint256 → Nat}

theorem Confirms.trans
    {first second : List CTransaction} {pool middle next : CTxMemPool}
    (ranFirst : Confirms txHash first pool middle)
    (ranSecond : Confirms txHash second middle next) :
    Confirms txHash (first ++ second) pool next := by
  have stays :
      ∀ outpoint, middle.mapNextTx outpoint = none →
        next.mapNextTx outpoint = none :=
    fun outpoint none =>
      mapNextTx_none ranFirst.linked ranSecond.linked ranSecond.kept none
  constructor
  · exact ranSecond.linked
  · intro hash tx found
    exact ranFirst.kept hash tx (ranSecond.kept hash tx found)
  · intro hash tx before after
    cases between : middle.mapTx hash with
    | none =>
        rcases ranFirst.dropped hash tx before between with
          ⟨mined, member, isHash⟩ | closed
        · exact Or.inl ⟨mined, List.mem_append_left _ member, isHash⟩
        · exact Or.inr fun i inside => stays _ (closed i inside)
    | some other =>
        have same := ranFirst.kept hash other between
        rw [before, Option.some.injEq] at same
        rw [← same] at between
        rcases ranSecond.dropped hash tx between after with
          ⟨mined, member, isHash⟩ | closed
        · exact Or.inl ⟨mined, List.mem_append_right _ member, isHash⟩
        · exact Or.inr closed
  · intro mined member txin inVin
    rcases List.mem_append.mp member with inFirst | inSecond
    · exact stays _ (ranFirst.free mined inFirst txin inVin)
    · exact ranSecond.free mined inSecond txin inVin

/-- One transaction of the block. -/
theorem confirms_of_confirm
    {fuel : Nat} {state result : Removal} {tx : CTransaction}
    (ideal : Ideal txHash txs rank)
    (sound : SoundPool txHash txs rank state.pool) (known : tx ∈ txs)
    (ran : confirm txHash fuel state tx = .ok result) :
    Confirms txHash [tx] state.pool result.pool := by
  rcases bind_eq_ok.mp ran with ⟨unused, ranRemove, ranConflicts⟩
  cases fuel with
  | zero => cases ranRemove
  | succ fuel =>
      rw [remove_single, Except.ok.injEq] at ranRemove
      have entry :
          ∀ hash, unused.pool.mapTx hash =
            if hash = txHash tx then none else state.pool.mapTx hash := by
        intro hash
        rw [← ranRemove]
        exact removeEntry_mapTx txHash tx ⟨state.pool, []⟩ hash
      have linked : Linked txHash unused.pool := by
        have removed :
            Linked txHash (removeEntry txHash tx ⟨state.pool, []⟩).pool :=
          linked_removeEntry sound.linked (sound.same ideal known)
        rw [← ranRemove]
        exact removed
      have keptFirst :
          ∀ hash other, unused.pool.mapTx hash = some other →
            state.pool.mapTx hash = some other := by
        intro hash other found
        rw [entry] at found
        split_ifs at found
        exact found
      have conflicts :=
        removesConflicts_of_removeConflicts ideal ranConflicts
          (sound.of_kept linked keptFirst)
      have gone : result.pool.mapTx (txHash tx) = none := by
        rw [Option.eq_none_iff_forall_not_mem]
        intro other found
        have before := conflicts.shrinks.kept _ other found
        rw [entry, if_pos rfl] at before
        cases before
      constructor
      · exact conflicts.linked
      · intro hash other found
        exact keptFirst hash other (conflicts.shrinks.kept hash other found)
      · intro hash other before after
        by_cases isHash : hash = txHash tx
        · exact Or.inl ⟨tx, List.mem_singleton.mpr rfl, isHash.symm⟩
        · right
          have between : unused.pool.mapTx hash = some other := by
            rw [entry, if_neg isHash]
            exact before
          exact conflicts.shrinks.closed hash other between after
      · intro mined member txin inVin
        rw [List.mem_singleton.mp member] at inVin
        rw [Option.eq_none_iff_forall_not_mem]
        intro inpoint found
        have isTx := conflicts.free txin inVin inpoint found
        have isHash := conflicts.linked.keyed _ tx isTx
        rw [← isHash, gone] at isTx
        cases isTx

/-- All transactions of the block. -/
theorem confirms_of_block
    {fuel : Nat} {state result : Removal} {vtx : List CTransaction}
    (ideal : Ideal txHash txs rank)
    (sound : SoundPool txHash txs rank state.pool)
    (known : ∀ tx ∈ vtx, tx ∈ txs)
    (ran : vtx.foldlM (confirm txHash fuel) state = .ok result) :
    Confirms txHash vtx state.pool result.pool := by
  induction vtx generalizing state with
  | nil =>
      cases ran
      refine ⟨sound.linked, fun _ _ found => found, ?_, ?_⟩
      · intro hash tx before after
        rw [before] at after
        cases after
      · intro mined member
        cases member
  | cons tx rest inductionHypothesis =>
      rw [List.foldlM_cons] at ran
      rcases bind_eq_ok.mp ran with ⟨middle, ranFirst, ranRest⟩
      have first :=
        confirms_of_confirm ideal sound (known tx List.mem_cons_self) ranFirst
      have later :=
        inductionHypothesis (sound.of_kept first.linked first.kept)
          (fun other member => known other (List.mem_cons_of_mem _ member))
          ranRest
      exact first.trans later

/-- A flush does not change which outputs are available. -/
theorem unspentAt_writeChainState
    (fFlush : Bool) (view : CCoinsView) (outpoint : COutPoint) :
    unspentAt (writeChainState fFlush view) outpoint =
      unspentAt view outpoint := by
  cases fFlush with
  | false => rfl
  | true =>
      simp only [writeChainState, unspentAt, if_true]
      cases known : view.coins outpoint.hash with
      | none => rfl
      | some coins =>
          cases pruned : coins.isPruned with
          | false => simp [Option.filter, pruned]
          | true =>
              have none := (isPruned_iff coins).mp pruned outpoint.n.toNat
              simp [pruned, none]

/-- What `ConnectTip` does when the block is accepted. -/
theorem connectTip_cases
    {node : Node} {fuel : Nat} {fFlush : Bool} {block : CBlock}
    {state next : State}
    (fresh : node.blockHash block ≠ node.hashGenesisBlock)
    (ran : connectTip node fuel fFlush block state = .ok next) :
    next = state ∨
      ∃ coins blockUndo removal,
        updateAllCoins node (state.tip.height + 1) state.coins block.vtx =
          .ok (coins, blockUndo) ∧
        block.vtx.foldlM (confirm node.txHash fuel) ⟨state.pool, []⟩ =
          .ok removal ∧
        next.tip = .child state.tip block ∧
        next.undo = blockUndo :: state.undo ∧
        (∀ outpoint,
          unspentAt next.coins outpoint = unspentAt coins outpoint) ∧
        next.pool = removal.pool ∧
        ∃ coinBaseTx others, Checked block coinBaseTx others := by
  rw [connectTip] at ran
  cases accepted :
      connectBlock node state.coins (some state.tip) block false with
  | error failure =>
      rw [accepted] at ran
      cases failure with
      | fault fault => cases ran
      | reject reject =>
          cases ran
          exact Or.inl rfl
  | ok connected =>
      right
      simp only [accepted] at ran
      simp only [connectBlock, bind_eq_ok, orReject_eq_ok, if_neg fresh,
        orFault_eq_ok, require_eq_ok] at accepted
      rcases accepted with ⟨_, checks, _, _, _, _, _, _, loop, transactions,
        _, _, _, _, result⟩
      cases result
      rcases updateAllCoins_of_loop transactions with ⟨blockUndo, updated⟩
      have atTip :
          updateAllCoins node (state.tip.height + 1) state.coins block.vtx =
            .ok (loop.view, blockUndo) := updated
      simp only [atTip] at ran
      rcases bind_eq_ok.mp ran with ⟨removal, ranLoop, isNext⟩
      cases isNext
      refine ⟨loop.view, blockUndo, removal, atTip, orRemove_eq_ok.mp ranLoop,
        rfl, rfl, ?_, rfl, checked_of_checkBlock checks⟩
      intro outpoint
      rw [unspentAt_writeChainState]
      rfl

theorem authentic_of_source
    {view next : CCoinsView} {vtx : List CTransaction}
    (authentic : Authentic txHash txs view) (known : ∀ tx ∈ vtx, tx ∈ txs)
    (source :
      ∀ outpoint, (unspentAt next outpoint).isSome = true →
        (unspentAt view outpoint).isSome = true ∨
          ∃ tx ∈ vtx, txHash tx = outpoint.hash ∧
            (createdAt tx outpoint.n).isSome = true) :
    Authentic txHash txs next := by
  intro outpoint isLeft
  rcases source outpoint isLeft with before | ⟨tx, member, facts⟩
  · exact authentic outpoint before
  · exact ⟨tx, known tx member, facts⟩

/-- The records of a block are authentic. -/
theorem recorded_of_updateAllCoins
    {node : Node} {nHeight : Nat} {view next : CCoinsView}
    {others : List CTransaction} {blockUndo : CBlockUndo}
    (authentic : Authentic node.txHash txs view)
    (known : ∀ tx ∈ others, tx ∈ txs)
    (regular : ∀ tx ∈ others, tx.isCoinBase = false)
    (ran : updateAllCoins node nHeight view others = .ok (next, blockUndo)) :
    ∀ entry ∈ others.zip blockUndo, ∀ record ∈ entry.1.vin.zip entry.2,
      ∃ tx ∈ txs, node.txHash tx = record.1.prevout.hash ∧
        (createdAt tx record.1.prevout.n).isSome = true := by
  induction others generalizing view blockUndo with
  | nil =>
      intro entry member
      cases member
  | cons tx rest inductionHypothesis =>
      rcases updateAllCoins_cons ran with
        ⟨middle, undos, later, ranFirst, ranLater, isUndo⟩
      have isRegular := regular tx List.mem_cons_self
      rw [isRegular, if_neg Bool.false_ne_true] at isUndo
      have authenticMiddle : Authentic node.txHash txs middle := by
        intro outpoint isLeft
        rcases source_of_updateCoins ranFirst isLeft with before | created
        · exact authentic outpoint before
        · exact ⟨tx, known tx List.mem_cons_self, created⟩
      rw [isUndo, List.zip_cons_cons]
      intro entry member record inZip
      rcases List.mem_cons.mp member with rfl | inRest
      · rcases bind_eq_ok.mp ranFirst with
          ⟨⟨spent, records⟩, ranInputs, result⟩
        cases result
        rw [spentInputs, isRegular, if_neg Bool.false_ne_true] at ranInputs
        have isSpent := (unspentAt_spendInputs ranInputs).2 record inZip
        exact authentic _ (Option.isSome_iff_exists.mpr ⟨_, isSpent⟩)
      · exact inductionHypothesis authenticMiddle
          (fun other inOthers => known other (List.mem_cons_of_mem _ inOthers))
          (fun other inOthers =>
            regular other (List.mem_cons_of_mem _ inOthers))
          ranLater entry inRest record inZip

theorem recordedBlock_of_updateAllCoins
    {node : Node} {nHeight : Nat} {view next : CCoinsView} {block : CBlock}
    {coinBaseTx : CTransaction} {others : List CTransaction}
    {blockUndo : CBlockUndo}
    (authentic : Authentic node.txHash txs view)
    (known : ∀ tx ∈ block.vtx, tx ∈ txs)
    (checked : Checked block coinBaseTx others)
    (ran :
      updateAllCoins node nHeight view block.vtx = .ok (next, blockUndo)) :
    RecordedBlock node.txHash txs block blockUndo := by
  refine ⟨known, ?_⟩
  rw [checked.vtx] at known ran ⊢
  rcases updateAllCoins_cons ran with
    ⟨middle, undos, later, ranFirst, ranLater, isUndo⟩
  rw [if_pos checked.coinBase] at isUndo
  have authenticMiddle : Authentic node.txHash txs middle := by
    intro outpoint isLeft
    rcases source_of_updateCoins ranFirst isLeft with before | created
    · exact authentic outpoint before
    · exact ⟨coinBaseTx, known coinBaseTx List.mem_cons_self, created⟩
  have records :=
    recorded_of_updateAllCoins authenticMiddle
      (fun tx member => known tx (List.mem_cons_of_mem _ member))
      checked.noCoinBase ranLater
  intro entry member vprevout isPrevout record inZip
  rw [undoOrder, List.mem_reverse, List.zip_cons_cons, isUndo,
    List.mem_cons] at member
  rcases member with isFirst | inOthers
  · rw [isFirst] at isPrevout
    cases isPrevout
  · rw [List.zip_map_right, List.mem_map] at inOthers
    rcases inOthers with ⟨⟨tx, undo⟩, inPairs, isEntry⟩
    rw [← isEntry] at isPrevout inZip
    cases isPrevout
    exact records (tx, vprevout) inPairs record inZip

/-- `ConnectTip` keeps the invariant. -/
theorem Consistent.connectTip
    {node : Node} {fuel : Nat} {fFlush : Bool} {block : CBlock}
    {state next : State} (ideal : Ideal node.txHash txs rank)
    (consistent : Consistent node.txHash txs rank state)
    (known : ∀ tx ∈ block.vtx, tx ∈ txs)
    (fresh : node.blockHash block ≠ node.hashGenesisBlock)
    (ran : Tip.connectTip node fuel fFlush block state = .ok next) :
    Consistent node.txHash txs rank next := by
  rcases connectTip_cases fresh ran with
    rfl | ⟨coins, blockUndo, removal, updated, loop, isTip, isUndo, isCoins,
      isPool, coinBaseTx, others, checked⟩
  · exact consistent
  have confirms : Confirms node.txHash block.vtx state.pool removal.pool :=
    confirms_of_block ideal consistent.pool known loop
  constructor
  · rw [isPool]
    exact consistent.pool.of_kept confirms.linked confirms.kept
  · intro hash tx found txin member
    rw [isPool] at found ⊢
    have before := confirms.kept hash tx found
    have spent := spent_of_mem confirms.linked found member
    have unspent :
        ∀ mined ∈ block.vtx,
          txin.prevout ∉ (spentInputs mined).map CTxIn.prevout := by
      intro mined inBlock isSpent
      rcases List.mem_map.mp isSpent with ⟨other, inVin, isPrevout⟩
      rw [spentInputs] at inVin
      split_ifs at inVin
      · cases inVin
      · rw [← isPrevout, confirms.free mined inBlock other inVin] at spent
        exact spent rfl
    have fromBlock :
        ∀ parent ∈ txs, node.txHash parent = txin.prevout.hash →
          (createdAt parent txin.prevout.n).isSome = true →
          ∀ mined ∈ block.vtx, node.txHash mined = txin.prevout.hash →
            (createdAt mined txin.prevout.n).isSome = true := by
      intro parent inTxs isHash created mined inBlock isMined
      rw [ideal.injective mined (known mined inBlock) parent inTxs
        (isMined.trans isHash.symm)]
      exact created
    rcases consistent.backed hash tx before txin member with
      ⟨parent, inPool, created⟩ | isLeft
    · have inTxs := (consistent.pool.known _ parent inPool).1
      have isHash := consistent.pool.linked.keyed _ parent inPool
      cases left : removal.pool.mapTx txin.prevout.hash with
      | some other =>
          have same := confirms.kept _ other left
          rw [inPool, Option.some.injEq] at same
          exact Or.inl ⟨parent, by rw [left, same], created⟩
      | none =>
          rcases confirms.dropped _ parent inPool left with mined | closed
          · right
            rw [isCoins]
            exact unspentAt_updateAllCoins updated unspent
              (fromBlock parent inTxs isHash created) (Or.inr mined)
          · rcases Option.isSome_iff_exists.mp created with ⟨txout, output⟩
            have inside :=
              (List.getElem?_eq_some_iff.mp
                (getElem?_of_createdAt output).1).1
            have absent := closed _ inside
            rw [UInt32.ofNat_toNat] at absent
            exact absurd absent spent
    · right
      rcases consistent.authentic _ isLeft with
        ⟨parent, inTxs, isHash, created⟩
      rw [isCoins]
      exact unspentAt_updateAllCoins updated unspent
        (fromBlock parent inTxs isHash created) (Or.inl isLeft)
  · apply authentic_of_source consistent.authentic known
    intro outpoint isLeft
    rw [isCoins] at isLeft
    exact source_of_updateAllCoins updated isLeft
  · rw [isTip, isUndo]
    exact ⟨recordedBlock_of_updateAllCoins consistent.authentic known checked
      updated, consistent.recorded⟩

end Connecting

/-! ## Disconnecting the tip -/

/-- The output is one of a transaction that has not had its turn. -/
def Awaits
    (txHash : CTransaction → Uint256) (remaining : List CTransaction)
    (outpoint : COutPoint) : Prop :=
  ∃ tx ∈ remaining, tx.isCoinBase = false ∧ txHash tx = outpoint.hash ∧
    (createdAt tx outpoint.n).isSome = true

/-- Every input of the pool is backed or waits for a transaction. -/
def Covered
    (txHash : CTransaction → Uint256) (view : CCoinsView)
    (remaining : List CTransaction) (pool : CTxMemPool) : Prop :=
  ∀ hash tx, pool.mapTx hash = some tx → ∀ txin ∈ tx.vin,
    Backed pool view txin.prevout ∨ Awaits txHash remaining txin.prevout

section Disconnecting

variable {txs : Set CTransaction} {rank : Uint256 → Nat}

/-- One transaction of the block, accepted again. -/
theorem covered_of_adds
    {txHash : CTransaction → Uint256} {view : CCoinsView}
    {tx : CTransaction} {rest : List CTransaction} {pool next : CTxMemPool}
    (covered : Covered txHash view (tx :: rest) pool)
    (adds : Adds txHash view tx pool next) :
    Covered txHash view rest next := by
  intro hash other found txin member
  rcases adds.source hash other found with rfl | before
  · exact Or.inl ((adds.backed txin member).of_adds adds)
  · rcases covered hash other before txin member with
      backed | ⟨waiting, inList, regular, isHash, created⟩
    · exact Or.inl (backed.of_adds adds)
    · rcases List.mem_cons.mp inList with rfl | inRest
      · left
        left
        rw [← isHash]
        exact ⟨waiting, adds.isNew, created⟩
      · exact Or.inr ⟨waiting, inRest, regular, isHash, created⟩

/-- One transaction of the block, removed with what spends it. -/
theorem covered_of_removes
    {txHash : CTransaction → Uint256} {view : CCoinsView}
    {tx : CTransaction} {rest : List CTransaction} {pool next : CTxMemPool}
    (covered : Covered txHash view (tx :: rest) pool)
    (removes : Removes txHash tx pool next) :
    Covered txHash view rest next := by
  intro hash other found txin member
  have spent := spent_of_mem removes.linked found member
  rcases covered hash other (removes.shrinks.kept hash other found) txin
      member with backed | ⟨waiting, inList, regular, isHash, created⟩
  · exact Or.inl (backed.of_shrinks removes.shrinks spent)
  · rcases List.mem_cons.mp inList with rfl | inRest
    · rcases Option.isSome_iff_exists.mp created with ⟨txout, output⟩
      have inside :=
        (List.getElem?_eq_some_iff.mp (getElem?_of_createdAt output).1).1
      have absent := removes.unspent _ inside
      rw [UInt32.ofNat_toNat, isHash] at absent
      exact absurd absent spent
    · exact Or.inr ⟨waiting, inRest, regular, isHash, created⟩

theorem covered_of_resurrect
    {node : Node} {relay : Relay} {fuel : Nat} {pprev : CBlockIndex}
    {view : CCoinsView} {pool next : CTxMemPool} {tx : CTransaction}
    {rest : List CTransaction} (ideal : Ideal node.txHash txs rank)
    (known : tx ∈ txs) (sound : SoundPool node.txHash txs rank pool)
    (covered : Covered node.txHash view (tx :: rest) pool)
    (ran : resurrect node relay fuel pprev view pool tx = .ok next) :
    SoundPool node.txHash txs rank next ∧
      Covered node.txHash view rest next := by
  rw [resurrect] at ran
  by_cases isCoinBase : tx.isCoinBase = true
  · rw [if_pos isCoinBase] at ran
    cases ran
    refine ⟨sound, ?_⟩
    intro hash other found txin member
    rcases covered hash other found txin member with
      backed | ⟨waiting, inList, regular, facts⟩
    · exact Or.inl backed
    · rcases List.mem_cons.mp inList with rfl | inRest
      · rw [isCoinBase] at regular
        cases regular
      · exact Or.inr ⟨waiting, inRest, regular, facts⟩
  · rw [if_neg isCoinBase] at ran
    cases accepted :
        acceptToMemoryPool node relay pprev view pool tx false false with
    | ok added =>
        simp only [accepted] at ran
        cases ran
        rcases adds_of_accepts known sound
            (accepts_of_acceptToMemoryPool accepted) with ⟨soundNext, adds⟩
        exact ⟨soundNext, covered_of_adds covered adds⟩
    | error failure =>
        simp only [accepted] at ran
        cases failure with
        | fault fault => cases ran
        | reject reject =>
            rcases bind_eq_ok.mp ran with ⟨removal, ranRemove, isNext⟩
            cases isNext
            have removes :=
              removes_of_remove ideal (orRemove_eq_ok.mp ranRemove) sound
                known
            exact ⟨sound.of_kept removes.linked removes.shrinks.kept,
              covered_of_removes covered removes⟩

/-- All transactions of the block. -/
theorem covered_of_block
    {node : Node} {relay : Relay} {fuel : Nat} {pprev : CBlockIndex}
    {view : CCoinsView} {pool next : CTxMemPool} {vtx : List CTransaction}
    (ideal : Ideal node.txHash txs rank) (known : ∀ tx ∈ vtx, tx ∈ txs)
    (sound : SoundPool node.txHash txs rank pool)
    (covered : Covered node.txHash view vtx pool)
    (ran :
      vtx.foldlM (resurrect node relay fuel pprev view) pool = .ok next) :
    SoundPool node.txHash txs rank next ∧
      Covered node.txHash view [] next := by
  induction vtx generalizing pool with
  | nil =>
      cases ran
      exact ⟨sound, covered⟩
  | cons tx rest inductionHypothesis =>
      rw [List.foldlM_cons] at ran
      rcases bind_eq_ok.mp ran with ⟨middle, ranFirst, ranRest⟩
      rcases covered_of_resurrect ideal (known tx List.mem_cons_self) sound
          covered ranFirst with ⟨soundMiddle, coveredMiddle⟩
      exact inductionHypothesis
        (fun other member => known other (List.mem_cons_of_mem _ member))
        soundMiddle coveredMiddle ranRest

/-- What `DisconnectTip` does when the block is disconnected. -/
theorem disconnectTip_cases
    {node : Node} {relay : Relay} {keys : PubKeyOps}
    {hash : List UInt8 → Uint256} {fuel : Nat} {fFlush : Bool}
    {file : List UInt8} {state next : State}
    (ran :
      disconnectTip node relay keys hash fuel fFlush file state = .ok next) :
    next = state ∨
      ∃ pprev block restored,
        state.tip = .child pprev block ∧
        disconnectBlock node keys hash state.coins pprev block file =
          .ok (restored, true) ∧
        block.vtx.foldlM
            (resurrect node relay fuel pprev
              (writeChainState fFlush restored)) state.pool =
          .ok next.pool ∧
        next.tip = pprev ∧ next.undo = state.undo.tail ∧
        next.coins = writeChainState fFlush restored := by
  rw [disconnectTip] at ran
  cases isTip : state.tip with
  | root block =>
      simp only [isTip] at ran
      cases ran
      exact Or.inl rfl
  | child pprev block =>
      simp only [isTip] at ran
      cases disconnected :
          disconnectBlock node keys hash state.coins pprev block file with
      | error failure =>
          simp only [disconnected] at ran
          cases failure with
          | assertion => cases ran
          | outOfRange => cases ran
          | error message =>
              cases ran
              exact Or.inl rfl
      | ok result =>
          rcases result with ⟨restored, fClean⟩
          simp only [disconnected] at ran
          cases fClean with
          | false =>
              cases ran
              exact Or.inl rfl
          | true =>
              rcases bind_eq_ok.mp ran with ⟨pool, ranLoop, isNext⟩
              cases isNext
              exact Or.inr ⟨pprev, block, restored, rfl, disconnected,
                ranLoop, rfl, rfl, rfl⟩

/-- `DisconnectTip` keeps the invariant where it spares the coinbase. -/
theorem Consistent.disconnectTip
    {node : Node} {relay : Relay} {keys : PubKeyOps}
    {hash : List UInt8 → Uint256} {fuel : Nat} {fFlush : Bool}
    {file : List UInt8} {state next : State}
    (ideal : Ideal node.txHash txs rank)
    (consistent : Consistent node.txHash txs rank state)
    (stored :
      ∀ pprev block, state.tip = .child pprev block →
        ∃ blockUndo, state.undo.head? = some blockUndo ∧
          readFromDisk keys hash (node.blockHash pprev.item) file =
            some blockUndo)
    (spares : SparesCoinBase node state)
    (ran :
      Tip.disconnectTip node relay keys hash fuel fFlush file state =
        .ok next) :
    Consistent node.txHash txs rank next := by
  rcases disconnectTip_cases ran with
    rfl | ⟨pprev, block, restored, isTip, disconnected, loop, isPprev, isUndo,
      isCoins⟩
  · exact consistent
  rcases stored pprev block isTip with ⟨blockUndo, isHead, read⟩
  have disconnects := disconnects_block read disconnected
  have recorded := consistent.recorded
  rcases undoStack : state.undo with _ | ⟨first, rest⟩
  · rw [undoStack] at isHead
    cases isHead
  rw [undoStack] at isHead
  cases isHead
  rw [isTip, undoStack] at recorded
  rcases recorded with ⟨⟨known, records⟩, recordedRest⟩
  have unspent :
      ∀ outpoint, unspentAt next.coins outpoint =
        unspentAt restored outpoint := by
    intro outpoint
    rw [isCoins, unspentAt_writeChainState]
  have covered :
      Covered node.txHash (writeChainState fFlush restored) block.vtx
        state.pool := by
    intro txid tx found txin member
    rcases consistent.backed txid tx found txin member with
      inPool | isLeft
    · exact Or.inl (Or.inl inPool)
    · by_cases inBlock :
          ∃ mined ∈ block.vtx, node.txHash mined = txin.prevout.hash
      · right
        rcases inBlock with ⟨mined, inVtx, isHash⟩
        rcases consistent.authentic _ isLeft with
          ⟨parent, inTxs, isParent, created⟩
        have same :=
          ideal.injective mined (known mined inVtx) parent inTxs
            (isHash.trans isParent.symm)
        rw [← same] at created
        refine ⟨mined, inVtx, ?_, isHash, created⟩
        rw [← Bool.not_eq_true]
        intro isCoinBase
        exact spares pprev block isTip mined inVtx isCoinBase txid tx found
          txin member isHash.symm
      · left
        right
        rw [unspentAt_writeChainState]
        apply disconnects.kept _ _ isLeft
        intro entry inOrder isHash
        rw [undoOrder, List.mem_reverse] at inOrder
        exact inBlock ⟨entry.1, (List.of_mem_zip inOrder).1, isHash.symm⟩
  rcases covered_of_block ideal known consistent.pool covered loop with
    ⟨soundNext, coveredNext⟩
  constructor
  · exact soundNext
  · intro txid tx found txin member
    rw [isCoins]
    rcases coveredNext txid tx found txin member with
      backed | ⟨waiting, inList, -⟩
    · exact backed
    · cases inList
  · intro outpoint isLeft
    rw [unspent] at isLeft
    rcases disconnects.source outpoint isLeft with
      before | ⟨entry, inOrder, vprevout, isPrevout, record, inZip, isRecord⟩
    · exact consistent.authentic outpoint before
    · rw [← isRecord]
      exact records entry inOrder vprevout isPrevout record inZip
  · rw [isPprev, isUndo, undoStack]
    exact recordedRest

end Disconnecting

end DSValue.Mempool.Consistency

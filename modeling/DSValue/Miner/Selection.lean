import Mathlib.Data.Multiset.AddSub
import Mathlib.Tactic.Abel
import DSValue.Miner.BlockTemplate

/-!
# What the loop over the heap does

A round skips the transaction that it takes off the heap, or puts it into the
block when it connects to the coins behind the transactions before it.  No
transaction of the pool is there twice, in the heap, as an orphan that waits or
in the block, and the limits of the block are kept.
-/

namespace DSValue.Miner.Selection

open DSValue.Lib
open DSValue.Core.Serialize
open DSValue.Core.Transaction
open DSValue.Script.Scan
open DSValue.Consensus.TxOut
open DSValue.Consensus.CheckLottoResult
open DSValue.Consensus.CheckBlock
open DSValue.Consensus.ConnectBlock
open DSValue.Mempool.Pool
open DSValue.Mempool.Accept
open DSValue.Miner.BlockTemplate

variable {D : Type} {args : MinerArgs D} {queue next : Queue D}
  {template after : Template D} {tx : CTransaction} {hash : Uint256}

/-! ## Transactions that are not in the block yet -/

/-- The transaction of an orphan that waits for another one. -/
def waiting : Option (COrphan D) → Option CTransaction
  | none => none
  | some orphan =>
      if orphan.setDependsOn = ∅ then none else some orphan.ptx

/-- The transactions of the heap and those that wait. -/
def pending (queue : Queue D) : Multiset CTransaction :=
  ↑(queue.vecPriority.map TxPriority.tx) + ↑(queue.vOrphan.filterMap waiting)

theorem pending_push (vecPriority : List (TxPriority D)) (entry : TxPriority D)
    (vOrphan : List (Option (COrphan D))) (mapDependers : Uint256 → List Nat) :
    pending ⟨vecPriority ++ [entry], vOrphan, mapDependers⟩ =
      pending ⟨vecPriority, vOrphan, mapDependers⟩ + {entry.tx} := by
  rw [pending, pending, List.map_append, ← Multiset.coe_add, add_right_comm]
  rfl

theorem pending_orphan (vecPriority : List (TxPriority D))
    (vOrphan : List (Option (COrphan D))) (slot : Option (COrphan D))
    (before behind : Uint256 → List Nat) :
    pending ⟨vecPriority, vOrphan ++ [slot], before⟩ =
      pending ⟨vecPriority, vOrphan, behind⟩ + ↑(waiting slot).toList := by
  have alone : [slot].filterMap waiting = (waiting slot).toList := by
    rw [List.filterMap_cons]
    cases waiting slot <;> rfl
  rw [pending, pending, List.filterMap_append, alone, ← Multiset.coe_add,
    ← add_assoc]

/-- What an orphan in its place contributes. -/
theorem pending_set (vecPriority : List (TxPriority D))
    {vOrphan : List (Option (COrphan D))} {porphan : Nat}
    {slot : Option (COrphan D)} (found : vOrphan[porphan]? = some slot)
    (instead : Option (COrphan D)) (mapDependers : Uint256 → List Nat) :
    pending ⟨vecPriority, vOrphan.set porphan instead, mapDependers⟩ +
        ↑(waiting slot).toList =
      pending ⟨vecPriority, vOrphan, mapDependers⟩ +
        ↑(waiting instead).toList := by
  rcases List.getElem?_eq_some_iff.mp found with ⟨inside, found⟩
  have whole : vOrphan =
      vOrphan.take porphan ++ slot :: vOrphan.drop (porphan + 1) := by
    rw [← found, ← List.drop_eq_getElem_cons inside, List.take_append_drop]
  have parts (slot : Option (COrphan D)) :
      ((vOrphan.take porphan ++ slot :: vOrphan.drop (porphan + 1)).filterMap
          waiting : Multiset CTransaction) =
        ↑((vOrphan.take porphan).filterMap waiting) +
          (↑(waiting slot).toList +
            ↑((vOrphan.drop (porphan + 1)).filterMap waiting)) := by
    rw [List.filterMap_append, ← Multiset.coe_add, List.filterMap_cons]
    cases waiting slot <;> rfl
  rw [pending, pending, List.set_eq_take_append_cons_drop, if_pos inside, parts]
  conv_rhs => rw [whole, parts]
  abel

theorem pending_release
    {porphan : Nat} (released : release hash queue porphan = .ok next) :
    pending next = pending queue := by
  rw [release] at released
  split at released
  case h_2 => cases released
  case h_1 orphan found =>
    split at released
    · cases released
      rfl
    · rename_i depends
      have replaced (instead : COrphan D) :=
        pending_set queue.vecPriority found (some instead) queue.mapDependers
      have waits : waiting (some orphan) = some orphan.ptx := if_neg depends
      dsimp only at released
      split at released
      · rename_i none
        cases released
        have moved := replaced ⟨orphan.ptx, orphan.setDependsOn.erase hash,
          orphan.dPriority, orphan.dFeePerKb⟩
        rw [waits, waiting, if_pos none] at moved
        rw [pending_push]
        exact moved.trans (add_zero _)
      · rename_i more
        cases released
        have kept := replaced ⟨orphan.ptx, orphan.setDependsOn.erase hash,
          orphan.dPriority, orphan.dFeePerKb⟩
        rw [waits, waiting, if_neg more] at kept
        exact add_right_cancel kept

theorem pending_releases
    {dependers : List Nat}
    (released : dependers.foldlM (release hash) queue = .ok next) :
    pending next = pending queue := by
  induction dependers generalizing queue with
  | nil =>
      cases released
      rfl
  | cons porphan rest inductionHypothesis =>
      rw [List.foldlM_cons, bind_eq_ok] at released
      rcases released with ⟨between, first, later⟩
      rw [inductionHypothesis later, pending_release first]

/-- The transactions of the pool that the miner looks at. -/
def candidates (args : MinerArgs D) (entries : List CTransaction) :
    List CTransaction :=
  entries.filter fun tx =>
    !tx.isCoinBase && isFinalTx args.node tx args.nHeight 0

theorem pending_enqueue
    {view : CCoinsView} {pool : CTxMemPool}
    (entered : enqueue args view pool queue tx = .ok next) :
    pending next ≤ pending queue + ↑(candidates args [tx]) := by
  have unchanged : pending queue ≤ pending queue + ↑(candidates args [tx]) :=
    Multiset.le_add_right _ _
  rw [enqueue] at entered
  split at entered
  · cases entered
    exact unchanged
  · rename_i looked
    have candidate : candidates args [tx] = [tx] := by
      rw [candidates, List.filter_cons_of_pos (by simpa using looked)]
      rfl
    rw [bind_eq_ok] at entered
    rcases entered with ⟨⟨scanned, fMissingInputs⟩, -, entered⟩
    dsimp only at entered
    split at entered
    · split at entered
      · cases entered
        exact unchanged
      · cases entered
        rw [pending_orphan _ _ _ _ queue.mapDependers]
        exact (le_of_eq (add_zero _)).trans unchanged
    · rw [bind_eq_ok] at entered
      rcases entered with ⟨nValueOut, -, entered⟩
      rw [candidate]
      split at entered
      · cases entered
        exact le_of_eq (pending_push _ _ _ _)
      · rename_i depends
        cases entered
        rw [pending_orphan _ _ _ _ queue.mapDependers, waiting, if_neg depends]
        exact le_refl _

theorem pending_collect
    {view : CCoinsView} {pool : CTxMemPool} {entries : List CTransaction}
    (collected : collect args view pool entries = .ok queue) :
    pending queue ≤ (candidates args entries : Multiset CTransaction) := by
  have grows :
      ∀ (entries : List CTransaction) (first : Queue D),
        entries.foldlM (enqueue args view pool) first = .ok queue →
          pending queue ≤ pending first + ↑(candidates args entries) := by
    intro entries
    induction entries with
    | nil =>
        intro first ended
        cases ended
        exact Multiset.le_add_right _ _
    | cons tx rest inductionHypothesis =>
        intro first ended
        rw [List.foldlM_cons, bind_eq_ok] at ended
        rcases ended with ⟨between, entered, later⟩
        refine (inductionHypothesis between later).trans ?_
        refine (Multiset.add_le_add_right (pending_enqueue entered)).trans ?_
        rw [add_assoc, Multiset.coe_add, candidates, candidates, candidates,
          ← List.filter_append, List.singleton_append]
  exact (grows entries _ collected).trans (le_of_eq (zero_add _))

/-! ## One round -/

/-- A round that skips the transaction of the heap. -/
structure Skipped (template after : Template D) : Prop where
  view : after.view = template.view
  vtx : after.vtx = template.vtx
  nBlockSize : after.nBlockSize = template.nBlockSize
  nBlockSigOps : after.nBlockSigOps = template.nBlockSigOps
  nFees : after.nFees = template.nFees
  nCurBetValue : after.nCurBetValue = template.nCurBetValue
  left : ∃ tx, pending after.queue + {tx} = pending template.queue
  vOrphan : after.queue.vOrphan = template.queue.vOrphan
  mapDependers : after.queue.mapDependers = template.queue.mapDependers

/-- A round that puts a transaction into the block. -/
structure Added
    (args : MinerArgs D) (template after : Template D) (tx : CTransaction)
    (nTxFees nBetValue : Int64) (nTxSigOps : Nat) : Prop where
  fits : template.nBlockSize + tx.serialize.length < args.nBlockMaxSize
  cheap : template.nBlockSigOps + nTxSigOps < MAX_BLOCK_SIGOPS
  available : template.view.haveInputs tx = true
  fees :
    ∃ nValueIn nValueOut, template.view.getValueIn tx = .ok nValueIn ∧
      getValueOut tx = .ok nValueOut ∧ nTxFees = nValueIn - nValueOut
  sigOps :
    ∃ nP2SHSigOps, getP2SHSigOpCount template.view tx = .ok nP2SHSigOps ∧
      nTxSigOps = getLegacySigOpCount tx + nP2SHSigOps
  checked :
    checkInputs args.node template.view args.nHeight true true tx = .ok ()
  bets :
    getLottoValueFromTx args.node.network args.node.chainActive.height tx =
      .ok nBetValue
  spent :
    updateCoins args.node template.view args.nHeight tx = .ok after.view
  vtx : after.vtx = template.vtx ++ [tx]
  nBlockSize :
    after.nBlockSize = template.nBlockSize + tx.serialize.length
  nBlockSigOps : after.nBlockSigOps = template.nBlockSigOps + nTxSigOps
  nFees : after.nFees = template.nFees + nTxFees
  nCurBetValue : after.nCurBetValue = template.nCurBetValue + nBetValue
  left : pending after.queue + {tx} = pending template.queue
  released :
    ∃ vecPriority,
      (template.queue.mapDependers (args.node.txHash tx)).foldlM
          (release (args.node.txHash tx))
          { template.queue with vecPriority := vecPriority } =
        .ok after.queue

theorem pending_pop
    {i : Nat} {entry : TxPriority D}
    (found : template.queue.vecPriority[i]? = some entry) :
    pending (pop template i).queue + {entry.tx} = pending template.queue := by
  have taken : template.queue.vecPriority.Perm
      (entry :: template.queue.vecPriority.eraseIdx i) := by
    rcases List.getElem?_eq_some_iff.mp found with ⟨inside, rfl⟩
    exact (List.getElem_cons_eraseIdx_perm inside).symm
  rw [pending, pending, pop,
    Multiset.coe_eq_coe.mpr (taken.map TxPriority.tx), List.map_cons,
    ← Multiset.cons_coe, ← Multiset.singleton_add]
  abel

theorem skipped_pop
    {i : Nat} {entry : TxPriority D}
    (found : template.queue.vecPriority[i]? = some entry)
    (fSortedByFee : Bool) :
    Skipped template { pop template i with fSortedByFee := fSortedByFee } where
  view := rfl
  vtx := rfl
  nBlockSize := rfl
  nBlockSigOps := rfl
  nFees := rfl
  nCurBetValue := rfl
  left := ⟨entry.tx, pending_pop found⟩
  vOrphan := rfl
  mapDependers := rfl

/-- A round skips a transaction or adds it. -/
theorem takeNext_cases
    {view : CCoinsView} {first : Queue D} {i : Nat}
    (taken : (selection args view first).step template i = some after) :
    Skipped template after ∨
      ∃ tx nTxFees nBetValue nTxSigOps,
        Added args template after tx nTxFees nBetValue nTxSigOps := by
  rcases Option.bind_eq_some_iff.mp taken with ⟨result, rounded, ended⟩
  cases result with
  | error fault => cases ended
  | ok ended' =>
    cases ended
    rw [takeNext] at rounded
    split at rounded
    · cases rounded
    rename_i entry found
    split at rounded
    swap
    · cases rounded
    rw [Option.some.injEq, consider] at rounded
    have skips := skipped_pop found
    split at rounded
    · cases rounded
      exact Or.inl (skips _)
    rename_i fits
    split at rounded
    · cases rounded
      exact Or.inl (skips _)
    split at rounded
    · cases rounded
      exact Or.inl (skips _)
    rw [tryAdd] at rounded
    split at rounded
    · cases rounded
      exact Or.inl (skips _)
    rename_i available
    simp only [bind_eq_ok] at rounded
    rcases rounded with ⟨nValueIn, valueIn, nValueOut, valueOut, nP2SHSigOps,
      sigOps, rounded⟩
    split at rounded
    · cases rounded
      exact Or.inl (skips _)
    rename_i cheap
    split at rounded
    · cases rounded
    · cases rounded
      exact Or.inl (skips _)
    rename_i checked
    rw [bind_eq_ok] at rounded
    rcases rounded with ⟨valid, -, rounded⟩
    split at rounded
    swap
    · cases rounded
      exact Or.inl (skips _)
    simp only [add, bind_eq_ok] at rounded
    rcases rounded with ⟨spent, updated, nBetValue, bets, queue, released, same⟩
    cases same
    exact Or.inr ⟨entry.tx, nValueIn - nValueOut, nBetValue,
      getLegacySigOpCount entry.tx + nP2SHSigOps,
      { fits := Nat.lt_of_not_le fits
        cheap := Nat.lt_of_not_le cheap
        available := by simpa [pop] using available
        fees := ⟨nValueIn, nValueOut, valueIn, valueOut, rfl⟩
        sigOps := ⟨nP2SHSigOps, sigOps, rfl⟩
        checked := checked
        bets := bets
        spent := updated
        vtx := rfl
        nBlockSize := rfl
        nBlockSigOps := rfl
        nFees := rfl
        nCurBetValue := rfl
        left := by rw [pending_releases released, ← pending_pop found]
        released := ⟨_, released⟩ }⟩

/-! ## All rounds -/

/-- What holds between the rounds, for the transactions of the pool. -/
structure Kept (args : MinerArgs D) (entries : List CTransaction)
    (template : Template D) : Prop where
  left :
    ↑template.vtx + pending template.queue ≤
      (candidates args entries : Multiset CTransaction)
  nBlockSize :
    template.nBlockSize =
      1000 + (template.vtx.map fun tx => tx.serialize.length).sum
  fits : template.nBlockSize < max 1001 args.nBlockMaxSize
  legacy :
    100 + (template.vtx.map getLegacySigOpCount).sum ≤ template.nBlockSigOps
  cheap : template.nBlockSigOps < MAX_BLOCK_SIGOPS
  bets :
    lottoValueFromTxs args.node.network args.node.chainActive.height
      template.vtx 0 = .ok template.nCurBetValue

theorem lottoValueFromTxs_append
    {network : Network} {tipHeight : Nat} {first : List CTransaction}
    {start sum value : Int64}
    (summed : lottoValueFromTxs network tipHeight first start = .ok sum)
    (last : getLottoValueFromTx network tipHeight tx = .ok value) :
    lottoValueFromTxs network tipHeight (first ++ [tx]) start =
      .ok (sum + value) := by
  induction first generalizing start with
  | nil =>
      cases summed
      rw [List.nil_append, lottoValueFromTxs, last]
      rfl
  | cons head rest inductionHypothesis =>
      rw [lottoValueFromTxs, bind_eq_ok] at summed
      rcases summed with ⟨own, found, later⟩
      rw [List.cons_append, lottoValueFromTxs, found]
      exact inductionHypothesis later

theorem Kept.skip {entries : List CTransaction} (kept : Kept args entries template)
    (skipped : Skipped template after) : Kept args entries after where
  left := by
    rcases skipped.left with ⟨tx, same⟩
    have fewer : pending after.queue ≤ pending template.queue :=
      (Multiset.le_add_right _ {tx}).trans (le_of_eq same)
    rw [skipped.vtx]
    exact (Multiset.add_le_add_left fewer).trans kept.left
  nBlockSize := by rw [skipped.nBlockSize, skipped.vtx, kept.nBlockSize]
  fits := by
    rw [skipped.nBlockSize]
    exact kept.fits
  legacy := by
    rw [skipped.nBlockSigOps, skipped.vtx]
    exact kept.legacy
  cheap := by
    rw [skipped.nBlockSigOps]
    exact kept.cheap
  bets := by rw [skipped.vtx, skipped.nCurBetValue, kept.bets]

theorem Kept.add
    {entries : List CTransaction} {nTxFees nBetValue : Int64} {nTxSigOps : Nat}
    (kept : Kept args entries template)
    (added : Added args template after tx nTxFees nBetValue nTxSigOps) :
    Kept args entries after where
  left := by
    rw [added.vtx, ← Multiset.coe_add, add_assoc, Multiset.coe_singleton,
      add_comm _ (pending after.queue), added.left]
    exact kept.left
  nBlockSize := by
    rw [added.nBlockSize, added.vtx, kept.nBlockSize, List.map_append,
      List.sum_append, List.map_singleton, List.sum_singleton, add_assoc]
  fits := by
    rw [added.nBlockSize]
    exact lt_max_of_lt_right added.fits
  legacy := by
    rcases added.sigOps with ⟨nP2SHSigOps, -, total⟩
    have before := kept.legacy
    rw [added.nBlockSigOps, added.vtx, List.map_append, List.sum_append,
      List.map_singleton, List.sum_singleton]
    omega
  cheap := by
    rw [added.nBlockSigOps]
    exact added.cheap
  bets := by
    rw [added.vtx, added.nCurBetValue]
    exact lottoValueFromTxs_append kept.bets added.bets

theorem kept_start
    {view : CCoinsView} {pool : CTxMemPool} {entries : List CTransaction}
    (collected : collect args view pool entries = .ok queue) :
    Kept args entries (start args view queue) where
  left := (le_of_eq (zero_add _)).trans (pending_collect collected)
  nBlockSize := rfl
  fits := lt_max_of_lt_left (Nat.lt_succ_self 1000)
  legacy := le_refl _
  cheap := (by decide : 100 < MAX_BLOCK_SIGOPS)
  bets := rfl

/-- What holds before the loop and is kept holds behind every number of rounds. -/
theorem kept_of_run
    {view : CCoinsView} {pool : CTxMemPool} {entries : List CTransaction}
    {picks : List Nat}
    (collected : collect args view pool entries = .ok queue)
    (ran : (selection args view queue).run picks = some template) :
    Kept args entries template := by
  refine System.run_invariant (kept_start collected) ?_ ran
  intro state i next kept taken
  rcases takeNext_cases taken with skipped | ⟨tx, _, _, _, added⟩
  · exact kept.skip skipped
  · exact kept.add added

/-- Every transaction of the block is one of the pool, and none is there twice. -/
theorem Kept.subperm {entries : List CTransaction} (kept : Kept args entries template) :
    template.vtx.Subperm (candidates args entries) :=
  Multiset.coe_le.mp ((Multiset.le_add_right _ _).trans kept.left)

theorem Kept.candidate {entries : List CTransaction} (kept : Kept args entries template)
    (member : tx ∈ template.vtx) :
    tx ∈ entries ∧ tx.isCoinBase = false ∧
      isFinalTx args.node tx args.nHeight 0 = true := by
  have found := kept.subperm.subset member
  rw [candidates, List.mem_filter] at found
  simpa using found

end DSValue.Miner.Selection

import DSValue.Consensus.ConnectBlock

/-!
# The memory pool

`CTxMemPool` keeps its transactions by hash and, for every output they spend,
the transaction and the input that spends it.  `remove` takes a transaction
out, on demand with everything that spends its outputs, and
`removeConflicts` takes out what spends the same outputs as a transaction of
a block.

The recursion of `remove` follows `mapNextTx` while it erases from it.  It
ends because a transaction that spends an output has a higher rank than the
transaction of the output: a hash cannot be chosen before what it covers.
-/

namespace DSValue.Mempool.Pool

open DSValue.Lib
open DSValue.Core.Serialize
open DSValue.Core.Transaction
open DSValue.Consensus.CheckLottoResult
open DSValue.Consensus.CheckBlock
open DSValue.Consensus.ConnectBlock

/-- `CInPoint`: the entry of `mapTx` it points to, and the input. -/
structure CInPoint where
  ptx : Uint256
  n : Nat
deriving DecidableEq

/-- `CTxMemPool`. -/
structure CTxMemPool where
  mapTx : Uint256 → Option CTransaction
  mapNextTx : COutPoint → Option CInPoint

namespace CTxMemPool

def empty : CTxMemPool :=
  ⟨fun _ => none, fun _ => none⟩

/-- `CTxMemPool::exists`. -/
def contains (pool : CTxMemPool) (hash : Uint256) : Bool :=
  (pool.mapTx hash).isSome

/-- `CTxMemPool::addUnchecked`. -/
def addUnchecked (pool : CTxMemPool) (hash : Uint256) (tx : CTransaction) :
    CTxMemPool where
  mapTx := Function.update pool.mapTx hash (some tx)
  mapNextTx :=
    tx.vin.zipIdx.foldl
      (fun mapNextTx entry =>
        Function.update mapNextTx entry.1.prevout (some ⟨hash, entry.2⟩))
      pool.mapNextTx

/-- The part of `CTxMemPool::remove` that erases an entry. -/
def erase (pool : CTxMemPool) (hash : Uint256) (tx : CTransaction) :
    CTxMemPool where
  mapTx := Function.update pool.mapTx hash none
  mapNextTx :=
    tx.vin.foldl
      (fun mapNextTx txin => Function.update mapNextTx txin.prevout none)
      pool.mapNextTx

end CTxMemPool

/-- The pool and the list of removed transactions. -/
structure Removal where
  pool : CTxMemPool
  removed : List CTransaction

/-- How `remove` fails. -/
inductive RemoveFault where
  | stackOverflow
  | dangling
deriving DecidableEq

/-- One round of the loop of `remove` over the outputs. -/
def removeSpender
    (removeChild : CTransaction → Removal → Except RemoveFault Removal)
    (hash : Uint256) (state : Removal) (i : Nat) :
    Except RemoveFault Removal :=
  match state.pool.mapNextTx ⟨hash, UInt32.ofNat i⟩ with
  | none => pure state
  | some inpoint =>
      match state.pool.mapTx inpoint.ptx with
      | none => throw .dangling
      | some child => removeChild child state

/-- The last part of `remove`. -/
def removeEntry
    (txHash : CTransaction → Uint256) (tx : CTransaction) (state : Removal) :
    Removal :=
  if state.pool.contains (txHash tx) then
    ⟨state.pool.erase (txHash tx) tx, tx :: state.removed⟩
  else state

/-- `CTxMemPool::remove`, with a bound on the depth of the recursion. -/
def remove (txHash : CTransaction → Uint256) :
    Nat → CTransaction → Bool → Removal → Except RemoveFault Removal
  | 0, _, _, _ => throw .stackOverflow
  | fuel + 1, tx, fRecursive, state => do
      let state ←
        if fRecursive then
          (List.range tx.vout.length).foldlM
            (removeSpender (fun child => remove txHash fuel child true)
              (txHash tx)) state
        else pure state
      pure (removeEntry txHash tx state)

/-- One round of the loop of `removeConflicts`. -/
def removeConflict
    (txHash : CTransaction → Uint256)
    (fuel : Nat) (tx : CTransaction) (state : Removal)
    (txin : CTxIn) : Except RemoveFault Removal :=
  match state.pool.mapNextTx txin.prevout with
  | none => pure state
  | some inpoint =>
      match state.pool.mapTx inpoint.ptx with
      | none => throw .dangling
      | some txConflict =>
          if txConflict ≠ tx then remove txHash fuel txConflict true state
          else pure state

/-- `CTxMemPool::removeConflicts`. -/
def removeConflicts
    (txHash : CTransaction → Uint256)
    (fuel : Nat) (tx : CTransaction) (state : Removal) :
    Except RemoveFault Removal :=
  tx.vin.foldlM (removeConflict txHash fuel tx) state

/-! ## Links -/

/-- `mapNextTx` holds exactly the inputs of the transactions of `mapTx`. -/
structure Linked (txHash : CTransaction → Uint256) (pool : CTxMemPool) :
    Prop where
  keyed : ∀ hash tx, pool.mapTx hash = some tx → txHash tx = hash
  next :
    ∀ hash tx, pool.mapTx hash = some tx →
      ∀ i txin, tx.vin[i]? = some txin →
        pool.mapNextTx txin.prevout = some ⟨hash, i⟩
  entry :
    ∀ outpoint inpoint, pool.mapNextTx outpoint = some inpoint →
      ∃ tx txin, pool.mapTx inpoint.ptx = some tx ∧
        tx.vin[inpoint.n]? = some txin ∧ txin.prevout = outpoint

theorem linked_empty (txHash : CTransaction → Uint256) : Linked txHash .empty := by
  constructor
  · intro hash tx found
    cases found
  · intro hash tx found
    cases found
  · intro outpoint inpoint found
    cases found

/-- The input that spends an output is the one `mapNextTx` names. -/
theorem Linked.next_of_mem
    {txHash : CTransaction → Uint256}
    {pool : CTxMemPool} (linked : Linked txHash pool)
    {hash : Uint256} {tx : CTransaction}
    (found : pool.mapTx hash = some tx) {txin : CTxIn}
    (member : txin ∈ tx.vin) :
    ∃ i, pool.mapNextTx txin.prevout = some ⟨hash, i⟩ := by
  rcases List.getElem?_of_mem member with ⟨i, at?⟩
  exact ⟨i, linked.next hash tx found i txin at?⟩

/-- What an output that is spent says about its spender. -/
theorem Linked.spender
    {txHash : CTransaction → Uint256}
    {pool : CTxMemPool} (linked : Linked txHash pool)
    {outpoint : COutPoint} {inpoint : CInPoint}
    (found : pool.mapNextTx outpoint = some inpoint) :
    ∃ tx, pool.mapTx inpoint.ptx = some tx ∧
      txHash tx = inpoint.ptx ∧
      ∃ txin ∈ tx.vin, txin.prevout = outpoint := by
  rcases linked.entry outpoint inpoint found with
    ⟨tx, txin, inPool, at?, isPrevout⟩
  exact ⟨tx, inPool, linked.keyed _ tx inPool, txin,
    List.mem_of_getElem? at?, isPrevout⟩

theorem foldl_update_none
    (vin : List CTxIn) (map : COutPoint → Option CInPoint)
    (outpoint : COutPoint) :
    vin.foldl
        (fun (map : COutPoint → Option CInPoint) txin =>
          Function.update map txin.prevout none) map outpoint =
      if outpoint ∈ vin.map CTxIn.prevout then none else map outpoint := by
  induction vin generalizing map with
  | nil => simp
  | cons txin rest inductionHypothesis =>
      rw [List.foldl_cons, inductionHypothesis, List.map_cons,
        Function.update_apply]
      by_cases isFirst : outpoint = txin.prevout
      · simp [isFirst]
      · simp [isFirst]

theorem erase_mapNextTx
    (pool : CTxMemPool) (hash : Uint256) (tx : CTransaction)
    (outpoint : COutPoint) :
    (pool.erase hash tx).mapNextTx outpoint =
      if outpoint ∈ tx.vin.map CTxIn.prevout then none
      else pool.mapNextTx outpoint :=
  foldl_update_none tx.vin pool.mapNextTx outpoint

theorem erase_mapTx_of_ne
    (pool : CTxMemPool) (tx : CTransaction) {hash key : Uint256}
    (differs : key ≠ hash) :
    (pool.erase hash tx).mapTx key = pool.mapTx key :=
  Function.update_of_ne differs _ _

theorem erase_mapTx_self
    (pool : CTxMemPool) (hash : Uint256) (tx : CTransaction) :
    (pool.erase hash tx).mapTx hash = none :=
  Function.update_self _ _ _

/-- Erasing an entry of the pool keeps the links. -/
theorem Linked.erase
    {txHash : CTransaction → Uint256}
    {pool : CTxMemPool} (linked : Linked txHash pool)
    {hash : Uint256} {tx : CTransaction}
    (inPool : pool.mapTx hash = some tx) :
    Linked txHash (pool.erase hash tx) := by
  have other :
      ∀ key found, (pool.erase hash tx).mapTx key = some found →
        key ≠ hash ∧ pool.mapTx key = some found := by
    intro key found isFound
    by_cases isHash : key = hash
    · rw [isHash, erase_mapTx_self] at isFound
      cases isFound
    · rw [erase_mapTx_of_ne pool tx isHash] at isFound
      exact ⟨isHash, isFound⟩
  constructor
  · intro key found isFound
    exact linked.keyed key found (other key found isFound).2
  · intro key found isFound i txin at?
    rcases other key found isFound with ⟨differs, before⟩
    rw [erase_mapNextTx, if_neg]
    · exact linked.next key found before i txin at?
    · intro erased
      rcases List.mem_map.mp erased with ⟨mine, member, samePrevout⟩
      rcases linked.next_of_mem inPool member with ⟨n, isNext⟩
      rw [samePrevout, linked.next key found before i txin at?] at isNext
      exact differs (CInPoint.mk.inj (Option.some.inj isNext)).1
  · intro outpoint inpoint found
    rw [erase_mapNextTx] at found
    split_ifs at found with erased
    rcases linked.entry outpoint inpoint found with
      ⟨spender, txin, before, at?, isPrevout⟩
    refine ⟨spender, txin, ?_, at?, isPrevout⟩
    rw [erase_mapTx_of_ne]
    · exact before
    · intro isHash
      rw [isHash, inPool, Option.some.injEq] at before
      rw [← before] at at?
      exact erased
        (List.mem_map.mpr ⟨txin, List.mem_of_getElem? at?, isPrevout⟩)

/-! ## Removal -/

/--
Transactions were only taken out, and where one was, nothing spends its
outputs any more.
-/
structure Shrinks (pool next : CTxMemPool) : Prop where
  kept : ∀ hash tx, next.mapTx hash = some tx → pool.mapTx hash = some tx
  closed :
    ∀ hash tx, pool.mapTx hash = some tx → next.mapTx hash = none →
      ∀ i, i < tx.vout.length →
        next.mapNextTx ⟨hash, UInt32.ofNat i⟩ = none

theorem Shrinks.refl (pool : CTxMemPool) : Shrinks pool pool := by
  refine ⟨fun _ _ found => found, ?_⟩
  intro hash tx before after
  rw [before] at after
  cases after

/-- Links that are left were there before. -/
theorem mapNextTx_kept
    {txHash : CTransaction → Uint256}
    {pool next : CTxMemPool} (linked : Linked txHash pool)
    (linkedNext : Linked txHash next)
    (kept : ∀ hash tx, next.mapTx hash = some tx → pool.mapTx hash = some tx)
    {outpoint : COutPoint} {inpoint : CInPoint}
    (found : next.mapNextTx outpoint = some inpoint) :
    pool.mapNextTx outpoint = some inpoint := by
  rcases linkedNext.entry outpoint inpoint found with
    ⟨tx, txin, inNext, at?, isPrevout⟩
  rw [← isPrevout]
  exact linked.next _ tx (kept _ tx inNext) inpoint.n txin at?

theorem mapNextTx_none
    {txHash : CTransaction → Uint256}
    {pool next : CTxMemPool} (linked : Linked txHash pool)
    (linkedNext : Linked txHash next)
    (kept : ∀ hash tx, next.mapTx hash = some tx → pool.mapTx hash = some tx)
    {outpoint : COutPoint} (absent : pool.mapNextTx outpoint = none) :
    next.mapNextTx outpoint = none := by
  rw [Option.eq_none_iff_forall_not_mem]
  intro inpoint found
  rw [mapNextTx_kept linked linkedNext kept found] at absent
  cases absent

theorem Shrinks.trans
    {txHash : CTransaction → Uint256} {pool middle next : CTxMemPool}
    (linkedMiddle : Linked txHash middle) (linkedNext : Linked txHash next)
    (first : Shrinks pool middle) (second : Shrinks middle next) :
    Shrinks pool next := by
  refine ⟨fun hash tx found => first.kept hash tx (second.kept hash tx found),
    ?_⟩
  intro hash tx before after i inside
  cases between : middle.mapTx hash with
  | none =>
      exact mapNextTx_none linkedMiddle linkedNext second.kept
        (first.closed hash tx before between i inside)
  | some other =>
      have same := first.kept hash other between
      rw [before, Option.some.injEq] at same
      rw [same] at inside
      exact second.closed hash other between after i inside

/-- Spenders rank above what they spend, and below a bound. -/
structure Ranked (rank : Uint256 → Nat) (bound : Nat) (pool : CTxMemPool) :
    Prop where
  bounded : ∀ hash tx, pool.mapTx hash = some tx → rank hash < bound
  rising :
    ∀ hash tx, pool.mapTx hash = some tx →
      ∀ txin ∈ tx.vin, rank txin.prevout.hash < rank hash

theorem Ranked.of_kept
    {rank : Uint256 → Nat} {bound : Nat} {pool next : CTxMemPool}
    (ranked : Ranked rank bound pool)
    (kept :
      ∀ hash tx, next.mapTx hash = some tx → pool.mapTx hash = some tx) :
    Ranked rank bound next :=
  ⟨fun hash tx found => ranked.bounded hash tx (kept hash tx found),
    fun hash tx found => ranked.rising hash tx (kept hash tx found)⟩

/-- What `remove` does to a pool when it takes the spenders out as well. -/
structure Removes
    (txHash : CTransaction → Uint256)
    (tx : CTransaction) (pool next : CTxMemPool) : Prop where
  linked : Linked txHash next
  shrinks : Shrinks pool next
  gone : next.mapTx (txHash tx) = none
  unspent :
    ∀ i, i < tx.vout.length →
      next.mapNextTx ⟨txHash tx, UInt32.ofNat i⟩ = none

/-- The last part of `remove`, behind the loop over the outputs. -/
theorem removes_removeEntry
    {txHash : CTransaction → Uint256}
    {tx : CTransaction} {pool : CTxMemPool} {state : Removal}
    (linked : Linked txHash state.pool)
    (shrinks : Shrinks pool state.pool)
    (same : ∀ found, pool.mapTx (txHash tx) = some found → found = tx)
    (unspent :
      ∀ i, i < tx.vout.length →
        state.pool.mapNextTx ⟨txHash tx, UInt32.ofNat i⟩ = none) :
    Removes txHash tx pool (removeEntry txHash tx state).pool := by
  rw [removeEntry, CTxMemPool.contains]
  cases known : state.pool.mapTx (txHash tx) with
  | none => exact ⟨linked, shrinks, known, unspent⟩
  | some found =>
      have isTx := same found (shrinks.kept _ found known)
      rw [isTx] at known
      have linkedNext := linked.erase known
      have stillUnspent :
          ∀ i, i < tx.vout.length →
            (state.pool.erase (txHash tx) tx).mapNextTx
              ⟨txHash tx, UInt32.ofNat i⟩ = none := by
        intro i inside
        rw [erase_mapNextTx, unspent i inside, ite_self]
      have last :
          Shrinks state.pool (state.pool.erase (txHash tx) tx) := by
        constructor
        · intro hash other found
          by_cases isHash : hash = txHash tx
          · rw [isHash, erase_mapTx_self] at found
            cases found
          · rwa [erase_mapTx_of_ne _ _ isHash] at found
        · intro hash other before after i inside
          by_cases isHash : hash = txHash tx
          · rw [isHash, known, Option.some.injEq] at before
            rw [← before] at inside
            rw [isHash]
            exact stillUnspent i inside
          · rw [erase_mapTx_of_ne _ _ isHash, before] at after
            cases after
      exact ⟨linkedNext, shrinks.trans linked linkedNext last,
        erase_mapTx_self _ _ _, stillUnspent⟩

/-- The loop of `remove` over the outputs, given what `remove` does. -/
theorem removeSpenders_spec
    {txHash : CTransaction → Uint256}
    {rank : Uint256 → Nat} {bound : Nat} {hash : Uint256}
    {removeChild : CTransaction → Removal → Except RemoveFault Removal}
    (removes :
      ∀ (state : Removal) (child : CTransaction), Linked txHash state.pool →
        Ranked rank bound state.pool →
        state.pool.mapTx (txHash child) = some child →
        rank hash < rank (txHash child) →
        ∃ result, removeChild child state = .ok result ∧
          Removes txHash child state.pool result.pool)
    (indices : List Nat) (state : Removal) (linked : Linked txHash state.pool)
    (ranked : Ranked rank bound state.pool) :
    ∃ result,
      indices.foldlM (removeSpender removeChild hash) state = .ok result ∧
      Linked txHash result.pool ∧ Shrinks state.pool result.pool ∧
      ∀ i ∈ indices, result.pool.mapNextTx ⟨hash, UInt32.ofNat i⟩ = none := by
  induction indices generalizing state with
  | nil =>
      refine ⟨state, rfl, linked, Shrinks.refl _, ?_⟩
      intro i member
      cases member
  | cons i rest inductionHypothesis =>
      have step :
          ∃ middle,
            removeSpender removeChild hash state i = .ok middle ∧
            Linked txHash middle.pool ∧ Shrinks state.pool middle.pool ∧
            middle.pool.mapNextTx ⟨hash, UInt32.ofNat i⟩ = none := by
        rw [removeSpender]
        cases known : state.pool.mapNextTx ⟨hash, UInt32.ofNat i⟩ with
        | none => exact ⟨state, rfl, linked, Shrinks.refl _, known⟩
        | some inpoint =>
            rcases linked.spender known with
              ⟨child, inPool, isHash, txin, member, isPrevout⟩
            have rises := ranked.rising _ child inPool txin member
            rw [isPrevout] at rises
            rw [← isHash] at inPool rises
            rcases removes state child linked ranked inPool rises with
              ⟨middle, ran, removed⟩
            simp only [← isHash, inPool]
            refine ⟨middle, ran, removed.linked, removed.shrinks, ?_⟩
            rw [Option.eq_none_iff_forall_not_mem]
            intro left found
            have before :=
              mapNextTx_kept linked removed.linked removed.shrinks.kept found
            rw [known, Option.some.injEq] at before
            rcases removed.linked.spender found with ⟨other, inMiddle, -⟩
            rw [← before, ← isHash, removed.gone] at inMiddle
            cases inMiddle
      rcases step with ⟨middle, ranFirst, linkedMiddle, shrinks, none⟩
      rcases inductionHypothesis middle linkedMiddle
          (ranked.of_kept shrinks.kept) with
        ⟨result, ranRest, linkedResult, shrinksRest, noneRest⟩
      refine ⟨result, ?_, linkedResult,
        shrinks.trans linkedMiddle linkedResult shrinksRest, ?_⟩
      · rw [List.foldlM_cons]
        exact bind_eq_ok.mpr ⟨middle, ranFirst, ranRest⟩
      · intro j member
        rcases List.mem_cons.mp member with rfl | inRest
        · exact mapNextTx_none linkedMiddle linkedResult shrinksRest.kept none
        · exact noneRest j inRest

/-- Recursive removal ends, and takes out the transaction and its spenders. -/
theorem remove_spec
    {txHash : CTransaction → Uint256}
    {rank : Uint256 → Nat} {bound : Nat} (fuel : Nat)
    (state : Removal) (tx : CTransaction) (linked : Linked txHash state.pool)
    (ranked : Ranked rank bound state.pool)
    (same :
      ∀ found, state.pool.mapTx (txHash tx) = some found → found = tx)
    (enough : bound - rank (txHash tx) < fuel) :
    ∃ result, remove txHash fuel tx true state = .ok result ∧
      Removes txHash tx state.pool result.pool := by
  induction fuel generalizing state tx with
  | zero => exact absurd enough (Nat.not_lt_zero _)
  | succ fuel inductionHypothesis =>
      have children :
          ∀ (current : Removal) (child : CTransaction),
            Linked txHash current.pool → Ranked rank bound current.pool →
            current.pool.mapTx (txHash child) = some child →
            rank (txHash tx) < rank (txHash child) →
            ∃ result, remove txHash fuel child true current = .ok result ∧
              Removes txHash child current.pool result.pool := by
        intro current child linkedCurrent rankedCurrent inPool rises
        apply inductionHypothesis current child linkedCurrent rankedCurrent
        · intro found isFound
          rw [inPool, Option.some.injEq] at isFound
          exact isFound.symm
        · have below := rankedCurrent.bounded _ child inPool
          omega
      rcases removeSpenders_spec children (List.range tx.vout.length) state
          linked ranked with
        ⟨middle, ran, linkedMiddle, shrinks, unspent⟩
      refine ⟨removeEntry txHash tx middle, ?_,
        removes_removeEntry linkedMiddle shrinks same
          (fun i inside => unspent i (List.mem_range.mpr inside))⟩
      rw [remove, if_pos rfl]
      exact bind_eq_ok.mpr ⟨middle, ran, rfl⟩

/-- Without recursion only the transaction itself is taken out. -/
theorem remove_single
    (txHash : CTransaction → Uint256)
    (fuel : Nat) (tx : CTransaction) (state : Removal) :
    remove txHash (fuel + 1) tx false state =
      .ok (removeEntry txHash tx state) := by
  rw [remove, if_neg Bool.false_ne_true]
  rfl

theorem linked_removeEntry
    {txHash : CTransaction → Uint256} {tx : CTransaction} {state : Removal}
    (linked : Linked txHash state.pool)
    (same :
      ∀ found, state.pool.mapTx (txHash tx) = some found → found = tx) :
    Linked txHash (removeEntry txHash tx state).pool := by
  rw [removeEntry, CTxMemPool.contains]
  cases known : state.pool.mapTx (txHash tx) with
  | none => exact linked
  | some found =>
      rw [same found known] at known
      exact linked.erase known

/-- Only the entry of the hash changes. -/
theorem removeEntry_mapTx
    (txHash : CTransaction → Uint256)
    (tx : CTransaction) (state : Removal) (hash : Uint256) :
    (removeEntry txHash tx state).pool.mapTx hash =
      if hash = txHash tx then none else state.pool.mapTx hash := by
  rw [removeEntry, CTxMemPool.contains]
  by_cases isHash : hash = txHash tx
  · rw [isHash, if_pos rfl]
    cases known : state.pool.mapTx (txHash tx) with
    | none => exact known
    | some found => exact erase_mapTx_self _ _ _
  · rw [if_neg isHash]
    cases known : state.pool.mapTx (txHash tx) with
    | none => rfl
    | some found => exact erase_mapTx_of_ne _ _ isHash

/-- More room for the recursion changes nothing. -/
theorem removeSpenders_mono
    {first second : CTransaction → Removal → Except RemoveFault Removal}
    (agree :
      ∀ child state result, first child state = .ok result →
        second child state = .ok result)
    {hash : Uint256} {indices : List Nat} {state result : Removal}
    (ran :
      indices.foldlM (removeSpender first hash) state = .ok result) :
    indices.foldlM (removeSpender second hash) state = .ok result := by
  induction indices generalizing state with
  | nil => exact ran
  | cons i rest inductionHypothesis =>
      rw [List.foldlM_cons] at ran ⊢
      rcases bind_eq_ok.mp ran with ⟨middle, ranFirst, ranRest⟩
      refine bind_eq_ok.mpr ⟨middle, ?_, inductionHypothesis ranRest⟩
      rw [removeSpender] at ranFirst ⊢
      cases known : state.pool.mapNextTx ⟨hash, UInt32.ofNat i⟩ with
      | none =>
          rw [known] at ranFirst
          exact ranFirst
      | some inpoint =>
          simp only [known] at ranFirst ⊢
          cases inPool : state.pool.mapTx inpoint.ptx with
          | none =>
              rw [inPool] at ranFirst
              cases ranFirst
          | some child =>
              simp only [inPool] at ranFirst ⊢
              exact agree child state middle ranFirst

theorem remove_mono
    {txHash : CTransaction → Uint256} {fuel more : Nat} {tx : CTransaction}
    {fRecursive : Bool} {state result : Removal} (le : fuel ≤ more)
    (ran : remove txHash fuel tx fRecursive state = .ok result) :
    remove txHash more tx fRecursive state = .ok result := by
  induction fuel generalizing more tx fRecursive state result with
  | zero => cases ran
  | succ fuel inductionHypothesis =>
      rcases more with _ | more
      · omega
      cases fRecursive with
      | false =>
          rw [remove_single] at ran ⊢
          exact ran
      | true =>
          rw [remove, if_pos rfl] at ran ⊢
          rcases bind_eq_ok.mp ran with ⟨middle, ranLoop, isResult⟩
          have ranMore :=
            removeSpenders_mono
              (fun child state result ranChild =>
                inductionHypothesis (Nat.le_of_succ_le_succ le) ranChild)
              ranLoop
          exact bind_eq_ok.mpr ⟨middle, ranMore, isResult⟩

/-! ## Conflicts -/

/-- What `removeConflicts` does to a pool. -/
structure RemovesConflicts
    (txHash : CTransaction → Uint256) (tx : CTransaction) (vin : List CTxIn)
    (pool next : CTxMemPool) : Prop where
  linked : Linked txHash next
  shrinks : Shrinks pool next
  free :
    ∀ txin ∈ vin, ∀ inpoint,
      next.mapNextTx txin.prevout = some inpoint →
      next.mapTx inpoint.ptx = some tx

theorem removeConflict_spec
    {txHash : CTransaction → Uint256} {rank : Uint256 → Nat} {bound fuel : Nat}
    {state : Removal} (tx : CTransaction) (txin : CTxIn)
    (linked : Linked txHash state.pool) (ranked : Ranked rank bound state.pool)
    (enough : bound < fuel) :
    ∃ result, removeConflict txHash fuel tx state txin = .ok result ∧
      RemovesConflicts txHash tx [txin] state.pool result.pool := by
  rw [removeConflict]
  cases known : state.pool.mapNextTx txin.prevout with
  | none =>
      refine ⟨state, rfl, linked, Shrinks.refl _, ?_⟩
      intro other member inpoint found
      rw [List.mem_singleton.mp member, known] at found
      cases found
  | some inpoint =>
      rcases linked.spender known with ⟨txConflict, inPool, isHash, -⟩
      simp only [inPool]
      by_cases isTx : txConflict = tx
      · rw [if_neg (not_not_intro isTx)]
        refine ⟨state, rfl, linked, Shrinks.refl _, ?_⟩
        intro other member left found
        rw [List.mem_singleton.mp member, known, Option.some.injEq] at found
        rw [← found, inPool, isTx]
      · rw [if_pos isTx]
        have same :
            ∀ found, state.pool.mapTx (txHash txConflict) = some found →
              found = txConflict := by
          intro found isFound
          rw [isHash, inPool, Option.some.injEq] at isFound
          exact isFound.symm
        rcases remove_spec fuel state txConflict linked ranked same
            (by omega) with ⟨result, ran, removes⟩
        refine ⟨result, ran, removes.linked, removes.shrinks, ?_⟩
        intro other member left found
        rw [List.mem_singleton.mp member] at found
        have before :=
          mapNextTx_kept linked removes.linked removes.shrinks.kept found
        rw [known, Option.some.injEq] at before
        rcases removes.linked.spender found with ⟨spender, inResult, -⟩
        rw [← before, ← isHash, removes.gone] at inResult
        cases inResult

theorem RemovesConflicts.trans
    {txHash : CTransaction → Uint256}
    {tx : CTransaction} {first second : List CTxIn}
    {pool middle next : CTxMemPool}
    (ranFirst : RemovesConflicts txHash tx first pool middle)
    (ranSecond : RemovesConflicts txHash tx second middle next) :
    RemovesConflicts txHash tx (first ++ second) pool next := by
  refine ⟨ranSecond.linked,
    ranFirst.shrinks.trans ranFirst.linked ranSecond.linked
      ranSecond.shrinks, ?_⟩
  intro txin member inpoint found
  rcases List.mem_append.mp member with inFirst | inSecond
  · have before :=
      mapNextTx_kept ranFirst.linked ranSecond.linked ranSecond.shrinks.kept
        found
    have isTx := ranFirst.free txin inFirst inpoint before
    rcases ranSecond.linked.spender found with ⟨spender, inNext, -⟩
    have same := ranSecond.shrinks.kept _ spender inNext
    rw [isTx, Option.some.injEq] at same
    rw [inNext, same]
  · exact ranSecond.free txin inSecond inpoint found

/-- `removeConflicts` ends, and nothing else spends the same outputs. -/
theorem removeConflicts_spec
    {txHash : CTransaction → Uint256} {rank : Uint256 → Nat} {bound fuel : Nat}
    {state : Removal} (tx : CTransaction) (linked : Linked txHash state.pool)
    (ranked : Ranked rank bound state.pool) (enough : bound < fuel) :
    ∃ result, removeConflicts txHash fuel tx state = .ok result ∧
      RemovesConflicts txHash tx tx.vin state.pool result.pool := by
  rw [removeConflicts]
  generalize tx.vin = vin
  induction vin generalizing state with
  | nil =>
      refine ⟨state, rfl, linked, Shrinks.refl _, ?_⟩
      intro txin member
      cases member
  | cons txin rest inductionHypothesis =>
      rcases removeConflict_spec tx txin linked ranked enough with
        ⟨middle, ranFirst, first⟩
      rcases inductionHypothesis first.linked
          (ranked.of_kept first.shrinks.kept) with
        ⟨result, ranRest, later⟩
      refine ⟨result, ?_, first.trans later⟩
      rw [List.foldlM_cons]
      exact bind_eq_ok.mpr ⟨middle, ranFirst, ranRest⟩

theorem removeConflicts_mono
    {txHash : CTransaction → Uint256} {fuel more : Nat} {tx : CTransaction}
    {state result : Removal} (le : fuel ≤ more)
    (ran : removeConflicts txHash fuel tx state = .ok result) :
    removeConflicts txHash more tx state = .ok result := by
  rw [removeConflicts] at ran ⊢
  generalize tx.vin = vin at ran ⊢
  induction vin generalizing state with
  | nil => exact ran
  | cons txin rest inductionHypothesis =>
      rw [List.foldlM_cons] at ran ⊢
      rcases bind_eq_ok.mp ran with ⟨middle, ranFirst, ranRest⟩
      refine bind_eq_ok.mpr ⟨middle, ?_, inductionHypothesis ranRest⟩
      rw [removeConflict] at ranFirst ⊢
      cases known : state.pool.mapNextTx txin.prevout with
      | none =>
          rw [known] at ranFirst
          exact ranFirst
      | some inpoint =>
          simp only [known] at ranFirst ⊢
          cases inPool : state.pool.mapTx inpoint.ptx with
          | none =>
              rw [inPool] at ranFirst
              cases ranFirst
          | some txConflict =>
              simp only [inPool] at ranFirst ⊢
              split_ifs at ranFirst ⊢ with isTx
              · exact remove_mono le ranFirst
              · exact ranFirst

/-! ## Additions -/

theorem foldl_update_of_not_mem
    (vin : List CTxIn) (start : Nat) (hash : Uint256)
    (map : COutPoint → Option CInPoint) {outpoint : COutPoint}
    (absent : outpoint ∉ vin.map CTxIn.prevout) :
    (vin.zipIdx start).foldl
        (fun (map : COutPoint → Option CInPoint) entry =>
          Function.update map entry.1.prevout (some ⟨hash, entry.2⟩))
        map outpoint =
      map outpoint := by
  induction vin generalizing start map with
  | nil => rfl
  | cons txin rest inductionHypothesis =>
      rw [List.map_cons, List.mem_cons, not_or] at absent
      rw [List.zipIdx_cons, List.foldl_cons,
        inductionHypothesis (start + 1) _ absent.2,
        Function.update_of_ne absent.1]

theorem foldl_update_of_getElem?
    {vin : List CTxIn} (start : Nat) (hash : Uint256)
    (map : COutPoint → Option CInPoint)
    (distinct : (vin.map CTxIn.prevout).Nodup) {i : Nat} {txin : CTxIn}
    (at? : vin[i]? = some txin) :
    (vin.zipIdx start).foldl
        (fun (map : COutPoint → Option CInPoint) entry =>
          Function.update map entry.1.prevout (some ⟨hash, entry.2⟩))
        map txin.prevout =
      some ⟨hash, start + i⟩ := by
  induction vin generalizing start map i with
  | nil => cases at?
  | cons first rest inductionHypothesis =>
      rw [List.map_cons, List.nodup_cons] at distinct
      rw [List.zipIdx_cons, List.foldl_cons]
      cases i with
      | zero =>
          cases at?
          rw [foldl_update_of_not_mem rest _ _ _ distinct.1,
            Function.update_self, Nat.add_zero]
      | succ i =>
          rw [List.getElem?_cons_succ] at at?
          rw [inductionHypothesis (start + 1) _ distinct.2 at?,
            Nat.add_assoc, Nat.add_comm 1 i]

/-- A transaction without conflicts can be added. -/
theorem Linked.addUnchecked
    {txHash : CTransaction → Uint256}
    {pool : CTxMemPool} (linked : Linked txHash pool)
    {tx : CTransaction}
    (fresh : pool.mapTx (txHash tx) = none)
    (distinct : (tx.vin.map CTxIn.prevout).Nodup)
    (noConflict : ∀ txin ∈ tx.vin, pool.mapNextTx txin.prevout = none) :
    Linked txHash (pool.addUnchecked (txHash tx) tx) := by
  have isNew :
      (pool.addUnchecked (txHash tx) tx).mapTx (txHash tx) =
        some tx := Function.update_self _ _ _
  have isOld :
      ∀ hash, hash ≠ txHash tx →
        (pool.addUnchecked (txHash tx) tx).mapTx hash =
          pool.mapTx hash :=
    fun hash differs => Function.update_of_ne differs _ _
  constructor
  · intro hash found isFound
    by_cases isHash : hash = txHash tx
    · rw [isHash, isNew, Option.some.injEq] at isFound
      rw [isHash, isFound]
    · rw [isOld hash isHash] at isFound
      exact linked.keyed hash found isFound
  · intro hash found isFound i txin at?
    by_cases isHash : hash = txHash tx
    · rw [isHash, isNew, Option.some.injEq] at isFound
      rw [← isFound] at at?
      rw [isHash, ← Nat.zero_add i]
      exact foldl_update_of_getElem? 0 _ _ distinct at?
    · rw [isOld hash isHash] at isFound
      have before := linked.next hash found isFound i txin at?
      rw [← before]
      apply foldl_update_of_not_mem
      intro conflicting
      rcases List.mem_map.mp conflicting with ⟨mine, member, samePrevout⟩
      have none := noConflict mine member
      rw [samePrevout, before] at none
      cases none
  · intro outpoint inpoint found
    by_cases isMine : outpoint ∈ tx.vin.map CTxIn.prevout
    · rcases List.mem_map.mp isMine with ⟨txin, member, isPrevout⟩
      rcases List.getElem?_of_mem member with ⟨i, at?⟩
      have added :
          (pool.addUnchecked (txHash tx) tx).mapNextTx txin.prevout =
            some ⟨txHash tx, 0 + i⟩ :=
        foldl_update_of_getElem? 0 _ _ distinct at?
      rw [← isPrevout, added, Option.some.injEq] at found
      rw [← found, Nat.zero_add]
      exact ⟨tx, txin, isNew, at?, isPrevout⟩
    · have before : pool.mapNextTx outpoint = some inpoint := by
        rw [← found]
        exact (foldl_update_of_not_mem _ _ _ _ isMine).symm
      rcases linked.entry outpoint inpoint before with
        ⟨spender, txin, inPool, at?, isPrevout⟩
      refine ⟨spender, txin, ?_, at?, isPrevout⟩
      rw [isOld]
      · exact inPool
      · intro isHash
        rw [isHash, fresh] at inPool
        cases inPool

end DSValue.Mempool.Pool

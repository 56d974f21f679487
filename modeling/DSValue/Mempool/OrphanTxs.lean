import DSValue.Core.Transaction
import DSValue.Lib.Loop
import DSValue.Lib.TableOps
import Mathlib.Data.Finset.Sort
import Mathlib.Data.List.MinMax

/-!
# Orphan transactions

A transaction whose inputs are missing waits in `mapOrphanTransactions`, and
`mapOrphanTransactionsByPrev` lists by hash of a parent the orphans that spend
an output of it.  `EraseOrphanTx` takes an emptied set out again.  When a
transaction is accepted, the `tx` message looks up the orphans of its hash
with `operator[]`, which leaves an empty set where there are none.
-/

namespace DSValue.Mempool.OrphanTxs

open DSValue.Lib
open DSValue.Lib.KeepFirst
open DSValue.Lib.TableOps
open DSValue.Core.Serialize
open DSValue.Core.Transaction

/-! ## The maps -/

/-- The two maps of orphan transactions. -/
structure Orphans where
  mapOrphanTransactions : Table Uint256 CTransaction
  mapOrphanTransactionsByPrev : Table Uint256 (Finset Uint256)

def Orphans.empty : Orphans := ⟨∅, ∅⟩

def Orphans.size (orphans : Orphans) : Nat :=
  orphans.mapOrphanTransactions.keys.length

/-- The set that `operator[]` gives. -/
def orphansOf (byPrev : Table Uint256 (Finset Uint256)) (hashPrev : Uint256) :
    Finset Uint256 :=
  (byPrev.lookup hashPrev).getD ∅

/-- `mapOrphanTransactionsByPrev[txin.prevout.hash].insert(hash)`. -/
def index (hash : Uint256) (byPrev : Table Uint256 (Finset Uint256))
    (txin : CTxIn) : Table Uint256 (Finset Uint256) :=
  byPrev.insert txin.prevout.hash
    (insert hash (orphansOf byPrev txin.prevout.hash))

/-- `AddOrphanTx`. -/
def addOrphanTx (getHash : CTransaction → Uint256) (orphans : Orphans)
    (tx : CTransaction) : Orphans × Bool :=
  let hash := getHash tx
  if hash ∈ orphans.mapOrphanTransactions then (orphans, false)
  else if 5000 < tx.serialize.length then (orphans, false)
  else
    (⟨orphans.mapOrphanTransactions.insert hash tx,
      tx.vin.foldl (index hash) orphans.mapOrphanTransactionsByPrev⟩, true)

/-- The body of the loop of `EraseOrphanTx`. -/
def unindex (hash : Uint256) (byPrev : Table Uint256 (Finset Uint256))
    (txin : CTxIn) : Table Uint256 (Finset Uint256) :=
  let erased :=
    byPrev.insert txin.prevout.hash
      ((orphansOf byPrev txin.prevout.hash).erase hash)
  if orphansOf erased txin.prevout.hash = ∅ then erased.erase txin.prevout.hash
  else erased

/-- `EraseOrphanTx`. -/
def eraseOrphanTx (orphans : Orphans) (hash : Uint256) : Orphans :=
  match orphans.mapOrphanTransactions.lookup hash with
  | none => orphans
  | some tx =>
      ⟨orphans.mapOrphanTransactions.erase hash,
        tx.vin.foldl (unindex hash) orphans.mapOrphanTransactionsByPrev⟩

/-- The key at `lower_bound`, or at `begin` when that is the end. -/
def victim (orphans : Orphans) (randomhash : Uint256) : Option Uint256 :=
  ((orphans.mapOrphanTransactions.keys.filter (randomhash ≤ ·)).argmin
      BitVec.toNat).or
    (orphans.mapOrphanTransactions.keys.argmin BitVec.toNat)

/-- A pass of `LimitOrphanTxSize`, with the number of evicted orphans. -/
def limitPass (nMaxOrphans : Nat) (getRandHash : Nat → Uint256) :
    Orphans × Nat → Option ((Orphans × Nat) × Bool)
  | (orphans, nEvicted) =>
      if nMaxOrphans < orphans.size then
        match victim orphans (getRandHash nEvicted) with
        | none => none
        | some hash => some ((eraseOrphanTx orphans hash, nEvicted + 1), false)
      else some ((orphans, nEvicted), true)

/-- `LimitOrphanTxSize`, with a bound on the number of passes. -/
def limitOrphanTxSize (orphans : Orphans) (nMaxOrphans : Nat)
    (getRandHash : Nat → Uint256) : Option (Orphans × Nat) :=
  Loop.run (limitPass nMaxOrphans getRandHash) (orphans.size + 1) (orphans, 0)

/-! ## The `tx` message -/

/-- What `AcceptToMemoryPool` says of a transaction. -/
inductive Outcome where
  | accepted
  | missingInputs
  | rejected
deriving DecidableEq

/-- The local variables of the message, and the orphans left for `mi`. -/
structure Resolution where
  vWorkQueue : List Uint256
  i : Nat
  offers : List Uint256
  vEraseQueue : List Uint256
deriving DecidableEq

/-- The maps, and the message that is resolving orphans. -/
structure State where
  orphans : Orphans
  resolution : Option Resolution

def State.start : State := ⟨.empty, none⟩

/-- The constructor of `CTransaction`. -/
def nullTransaction : CTransaction := ⟨1, [], [], 0⟩

/--
What can happen: calls of the three functions, a message with an accepted
transaction, and the iterations and the end of its two loops.
-/
inductive Event where
  | addOrphanTx (tx : CTransaction)
  | eraseOrphanTx (hash : Uint256)
  | limitOrphanTxSize (nMaxOrphans : Nat) (getRandHash : Nat → Uint256)
  | accept (tx : CTransaction)
  | nextPrev
  | offer (outcome : Outcome)
  | eraseQueue

/-- `hashPrev = vWorkQueue[i]`, with the set that `mi` will walk. -/
def nextPrev (orphans : Orphans) (local' : Resolution) : Option State :=
  match local'.offers, local'.vWorkQueue[local'.i]? with
  | [], some hashPrev =>
      some
        ⟨{ orphans with
            mapOrphanTransactionsByPrev :=
              insertNew orphans.mapOrphanTransactionsByPrev hashPrev ∅ },
          some { local' with
            i := local'.i + 1
            offers := (orphansOf orphans.mapOrphanTransactionsByPrev
              hashPrev).sort (· ≤ ·) }⟩
  | _, _ => none

/-- The body of the inner loop. -/
def offer (orphans : Orphans) (local' : Resolution) (outcome : Outcome) :
    Option State :=
  match local'.offers with
  | [] => none
  | orphanHash :: rest =>
      let found :=
        { orphans with
          mapOrphanTransactions :=
            insertNew orphans.mapOrphanTransactions orphanHash
              nullTransaction }
      match outcome with
      | .accepted =>
          some ⟨found, some
            { local' with
              offers := rest
              vWorkQueue := local'.vWorkQueue ++ [orphanHash]
              vEraseQueue := local'.vEraseQueue ++ [orphanHash] }⟩
      | .rejected =>
          some ⟨found, some
            { local' with
              offers := rest
              vEraseQueue := local'.vEraseQueue ++ [orphanHash] }⟩
      | .missingInputs => some ⟨found, some { local' with offers := rest }⟩

/-- The loop over `vEraseQueue`, once the queue of work is empty. -/
def eraseQueue (orphans : Orphans) (local' : Resolution) : Option State :=
  if local'.offers = [] ∧ local'.vWorkQueue.length ≤ local'.i then
    some ⟨local'.vEraseQueue.foldl eraseOrphanTx orphans, none⟩
  else none

/-- What an event does, where it can happen. -/
def step (getHash : CTransaction → Uint256) (state : State) (event : Event) :
    Option State :=
  match state.resolution, event with
  | none, .addOrphanTx tx => some ⟨(addOrphanTx getHash state.orphans tx).1, none⟩
  | none, .eraseOrphanTx hash => some ⟨eraseOrphanTx state.orphans hash, none⟩
  | none, .limitOrphanTxSize nMaxOrphans getRandHash =>
      (limitOrphanTxSize state.orphans nMaxOrphans getRandHash).map
        fun limited => ⟨limited.1, none⟩
  | none, .accept tx =>
      some ⟨state.orphans, some ⟨[getHash tx], 0, [], [getHash tx]⟩⟩
  | some local', .nextPrev => nextPrev state.orphans local'
  | some local', .offer outcome => offer state.orphans local' outcome
  | some local', .eraseQueue => eraseQueue state.orphans local'
  | _, _ => none

/-- The states that events which are allowed lead to. -/
inductive Reaches (getHash : CTransaction → Uint256)
    (allowed : State → Event → Prop) : State → Prop
  | start : Reaches getHash allowed .start
  | step {state next : State} (event : Event) :
      Reaches getHash allowed state → allowed state event →
        step getHash state event = some next → Reaches getHash allowed next

/-! ## Sets by parent -/

/-- A transaction spends an output of the transaction with a hash. -/
def Spends (tx : CTransaction) (hashPrev : Uint256) : Prop :=
  ∃ txin ∈ tx.vin, txin.prevout.hash = hashPrev

/-- The sets hold exactly the stored orphans with their parents. -/
def Indexed (orphans : Orphans) : Prop :=
  ∀ hashPrev hash,
    hash ∈ orphansOf orphans.mapOrphanTransactionsByPrev hashPrev ↔
      ∃ tx, orphans.mapOrphanTransactions.lookup hash = some tx ∧
        Spends tx hashPrev

/-- No set is empty. -/
def NoEmptySets (orphans : Orphans) : Prop :=
  ∀ hashPrev, orphans.mapOrphanTransactionsByPrev.lookup hashPrev ≠ some ∅

variable {getHash : CTransaction → Uint256} {orphans : Orphans}
  {byPrev : Table Uint256 (Finset Uint256)} {hash hashPrev key : Uint256}
  {txin : CTxIn} {vin : List CTxIn} {tx : CTransaction}

theorem mem_iff_orphansOf_nonempty
    (noEmpty : byPrev.lookup hashPrev ≠ some ∅) :
    hashPrev ∈ byPrev ↔ (orphansOf byPrev hashPrev).Nonempty := by
  rw [← AList.lookup_isSome, orphansOf]
  cases found : byPrev.lookup hashPrev with
  | none => simp
  | some set =>
      rw [Option.isSome_some, Option.getD_some, Finset.nonempty_iff_ne_empty]
      refine iff_of_true rfl ?_
      rintro rfl
      exact noEmpty found

theorem lookup_index (hash : Uint256) (byPrev : Table Uint256 (Finset Uint256))
    (txin : CTxIn) (hashPrev : Uint256) :
    (index hash byPrev txin).lookup hashPrev =
      if hashPrev = txin.prevout.hash then
        some (insert hash (orphansOf byPrev hashPrev))
      else byPrev.lookup hashPrev := by
  rw [index]
  split_ifs with same
  · rw [same, AList.lookup_insert]
  · rw [AList.lookup_insert_ne same]

theorem lookup_unindex
    (hash : Uint256) (byPrev : Table Uint256 (Finset Uint256))
    (txin : CTxIn) (hashPrev : Uint256) :
    (unindex hash byPrev txin).lookup hashPrev =
      if hashPrev = txin.prevout.hash then
        if (orphansOf byPrev hashPrev).erase hash = ∅ then none
        else some ((orphansOf byPrev hashPrev).erase hash)
      else byPrev.lookup hashPrev := by
  have atKey : orphansOf (byPrev.insert txin.prevout.hash
      ((orphansOf byPrev txin.prevout.hash).erase hash)) txin.prevout.hash =
      (orphansOf byPrev txin.prevout.hash).erase hash := by
    rw [orphansOf, AList.lookup_insert, Option.getD_some]
  rw [unindex]
  simp only [atKey]
  by_cases same : hashPrev = txin.prevout.hash
  · rw [if_pos same, same]
    split_ifs with isEmpty
    · rw [AList.lookup_erase]
    · rw [AList.lookup_insert]
  · rw [if_neg same]
    split_ifs with isEmpty
    · rw [AList.lookup_erase_ne same, AList.lookup_insert_ne same]
    · rw [AList.lookup_insert_ne same]

theorem mem_orphansOf_foldl_index :
    key ∈ orphansOf (vin.foldl (index hash) byPrev) hashPrev ↔
      key ∈ orphansOf byPrev hashPrev ∨
        key = hash ∧ ∃ txin ∈ vin, txin.prevout.hash = hashPrev := by
  induction vin generalizing byPrev with
  | nil => simp
  | cons txin vin inductionHypothesis =>
      have head : key ∈ orphansOf (index hash byPrev txin) hashPrev ↔
          key ∈ orphansOf byPrev hashPrev ∨
            key = hash ∧ txin.prevout.hash = hashPrev := by
        rw [orphansOf, lookup_index]
        split_ifs with same
        · rw [Option.getD_some, Finset.mem_insert, or_comm,
            and_iff_left same.symm]
        · rw [or_iff_left fun both : _ ∧ _ => same both.2.symm]
          rfl
      rw [List.foldl_cons, inductionHypothesis, head, or_assoc, ← and_or_left,
        List.exists_mem_cons_iff]

theorem mem_orphansOf_foldl_unindex :
    key ∈ orphansOf (vin.foldl (unindex hash) byPrev) hashPrev ↔
      key ∈ orphansOf byPrev hashPrev ∧
        ¬ (key = hash ∧ ∃ txin ∈ vin, txin.prevout.hash = hashPrev) := by
  induction vin generalizing byPrev with
  | nil => simp
  | cons txin vin inductionHypothesis =>
      have head : key ∈ orphansOf (unindex hash byPrev txin) hashPrev ↔
          key ∈ orphansOf byPrev hashPrev ∧
            ¬ (key = hash ∧ txin.prevout.hash = hashPrev) := by
        rw [orphansOf, lookup_unindex]
        by_cases same : hashPrev = txin.prevout.hash
        · have erased : (if (orphansOf byPrev hashPrev).erase hash = ∅ then none
              else some ((orphansOf byPrev hashPrev).erase hash)).getD ∅ =
              (orphansOf byPrev hashPrev).erase hash := by
            split_ifs with isEmpty
            · exact isEmpty.symm
            · rfl
          rw [if_pos same, erased, Finset.mem_erase, and_comm,
            and_iff_left same.symm]
        · rw [if_neg same,
            and_iff_left fun both : _ ∧ _ => same both.2.symm]
          rfl
      rw [List.foldl_cons, inductionHypothesis, head, and_assoc, ← not_or,
        ← and_or_left, List.exists_mem_cons_iff]

theorem foldl_index_noEmpty
    (noEmpty : ∀ hashPrev, byPrev.lookup hashPrev ≠ some ∅)
    (hashPrev : Uint256) :
    (vin.foldl (index hash) byPrev).lookup hashPrev ≠ some ∅ := by
  induction vin generalizing byPrev with
  | nil => exact noEmpty hashPrev
  | cons txin vin inductionHypothesis =>
      refine inductionHypothesis fun other => ?_
      rw [lookup_index]
      split_ifs
      · exact fun isEmpty =>
          Finset.insert_ne_empty _ _ (Option.some.inj isEmpty)
      · exact noEmpty other

theorem foldl_unindex_noEmpty
    (noEmpty : ∀ hashPrev, byPrev.lookup hashPrev ≠ some ∅)
    (hashPrev : Uint256) :
    (vin.foldl (unindex hash) byPrev).lookup hashPrev ≠ some ∅ := by
  induction vin generalizing byPrev with
  | nil => exact noEmpty hashPrev
  | cons txin vin inductionHypothesis =>
      refine inductionHypothesis fun other => ?_
      rw [lookup_unindex]
      split_ifs with same isEmpty
      · exact nofun
      · exact fun found => isEmpty (Option.some.inj found)
      · exact noEmpty other

/-! ## The three functions -/

theorem indexed_empty : Indexed .empty := by
  intro hashPrev hash
  simp [Orphans.empty, orphansOf]

theorem Indexed.addOrphanTx
    (indexed : Indexed orphans) (tx : CTransaction) :
    Indexed (addOrphanTx getHash orphans tx).1 := by
  rw [OrphanTxs.addOrphanTx]
  split_ifs with known large
  · exact indexed
  · exact indexed
  · intro hashPrev hash
    dsimp only
    rw [mem_orphansOf_foldl_index, indexed hashPrev hash]
    by_cases same : hash = getHash tx
    · have absent := AList.lookup_eq_none.mpr known
      rw [same, absent, AList.lookup_insert]
      simp [Spends]
    · rw [AList.lookup_insert_ne same,
        or_iff_left fun both : _ ∧ _ => same both.1]

theorem NoEmptySets.addOrphanTx
    (noEmpty : NoEmptySets orphans) (tx : CTransaction) :
    NoEmptySets (addOrphanTx getHash orphans tx).1 := by
  rw [OrphanTxs.addOrphanTx]
  split_ifs
  · exact noEmpty
  · exact noEmpty
  · exact foldl_index_noEmpty noEmpty

theorem Indexed.eraseOrphanTx (indexed : Indexed orphans) (hash : Uint256) :
    Indexed (eraseOrphanTx orphans hash) := by
  rw [OrphanTxs.eraseOrphanTx]
  cases found : orphans.mapOrphanTransactions.lookup hash with
  | none => exact indexed
  | some tx =>
      intro hashPrev key
      dsimp only
      rw [mem_orphansOf_foldl_unindex, indexed hashPrev key]
      by_cases same : key = hash
      · rw [same, found, AList.lookup_erase]
        simp [Spends]
      · rw [AList.lookup_erase_ne same,
          and_iff_left fun both : _ ∧ _ => same both.1]

theorem NoEmptySets.eraseOrphanTx
    (noEmpty : NoEmptySets orphans) (hash : Uint256) :
    NoEmptySets (eraseOrphanTx orphans hash) := by
  rw [OrphanTxs.eraseOrphanTx]
  cases orphans.mapOrphanTransactions.lookup hash with
  | none => exact noEmpty
  | some tx => exact foldl_unindex_noEmpty noEmpty

/-! ## The limit -/

theorem size_eraseOrphanTx (member : hash ∈ orphans.mapOrphanTransactions) :
    (eraseOrphanTx orphans hash).size + 1 = orphans.size := by
  rcases mem_table_iff.mp member with ⟨tx, found⟩
  have length := List.length_erase_add_one (AList.mem_keys.mp member)
  rw [eraseOrphanTx, found]
  show (orphans.mapOrphanTransactions.erase hash).keys.length + 1 = _
  rw [AList.keys_erase, length]
  rfl

theorem exists_victim (some' : 0 < orphans.size) (randomhash : Uint256) :
    ∃ hash, victim orphans randomhash = some hash ∧
      hash ∈ orphans.mapOrphanTransactions := by
  rw [victim]
  cases above : (orphans.mapOrphanTransactions.keys.filter
      (randomhash ≤ ·)).argmin BitVec.toNat with
  | some hash =>
      have member := List.argmin_mem (Option.mem_def.mpr above)
      exact ⟨hash, rfl, AList.mem_keys.mpr (List.mem_of_mem_filter member)⟩
  | none =>
      cases first : orphans.mapOrphanTransactions.keys.argmin BitVec.toNat with
      | some hash =>
          have member := List.argmin_mem (Option.mem_def.mpr first)
          exact ⟨hash, rfl, AList.mem_keys.mpr member⟩
      | none =>
          rw [List.argmin_eq_none] at first
          rw [Orphans.size, first] at some'
          exact absurd some' (lt_irrefl 0)

/-- The loop ends with few orphans, and erases them as `EraseOrphanTx` does. -/
theorem limitOrphanTxSize_ends
    (keeps : Orphans → Prop)
    (erases : ∀ orphans hash, keeps orphans → keeps (eraseOrphanTx orphans hash))
    (start : keeps orphans) (nMaxOrphans : Nat) (getRandHash : Nat → Uint256) :
    ∃ limited, limitOrphanTxSize orphans nMaxOrphans getRandHash =
        some limited ∧
      keeps limited.1 ∧ limited.1.size ≤ nMaxOrphans := by
  refine Loop.run_reaches (fun state => keeps state.1)
    (fun state => state.1.size) ?_ start (Nat.lt_succ_self _)
  rintro ⟨current, nEvicted⟩ kept
  rw [limitPass]
  split_ifs with many
  · rcases exists_victim (show 0 < current.size by omega)
        (getRandHash nEvicted) with ⟨hash, isVictim, member⟩
    have smaller := size_eraseOrphanTx member
    rw [isVictim]
    refine ⟨_, false, rfl, fun _ => ⟨erases current hash kept, ?_⟩, nofun⟩
    dsimp only
    omega
  · exact ⟨_, true, rfl, nofun, fun _ => ⟨kept, not_lt.mp many⟩⟩

/-! ## Runs -/

/-- The orphans that are still to be offered are stored. -/
structure Consistent (state : State) : Prop where
  indexed : Indexed state.orphans
  offered :
    ∀ local', state.resolution = some local' → ∀ hash ∈ local'.offers,
      hash ∈ state.orphans.mapOrphanTransactions

/-- The next hash that the message looks up has stored orphans. -/
def FindsOrphans (state : State) : Event → Prop
  | .nextPrev =>
      ∀ local' hashPrev, state.resolution = some local' →
        local'.vWorkQueue[local'.i]? = some hashPrev →
          ∃ hash tx, state.orphans.mapOrphanTransactions.lookup hash = some tx ∧
            Spends tx hashPrev
  | _ => True

theorem orphansOf_insertNew (byPrev : Table Uint256 (Finset Uint256))
    (hashPrev other : Uint256) :
    orphansOf (insertNew byPrev hashPrev ∅) other = orphansOf byPrev other := by
  rw [orphansOf, lookup_insertNew, orphansOf]
  cases byPrev.lookup other with
  | none => split_ifs <;> rfl
  | some set => rfl

theorem nextPrev_consistent
    {local' : Resolution} {next : State}
    (indexed : Indexed orphans) (stepped : nextPrev orphans local' = some next) :
    Consistent next := by
  rw [nextPrev] at stepped
  split at stepped
  next hashPrev _ _ =>
    cases stepped
    refine ⟨fun other hash => ?_, ?_⟩
    · dsimp only
      rw [orphansOf_insertNew]
      exact indexed other hash
    · intro later isLater hash member
      cases isLater
      rw [Finset.mem_sort] at member
      rcases (indexed hashPrev hash).mp member with ⟨tx, found, -⟩
      exact mem_table_iff.mpr ⟨tx, found⟩
  next => cases stepped

theorem offer_consistent
    {local' : Resolution} {next : State} {outcome : Outcome}
    (indexed : Indexed orphans)
    (offered : ∀ hash ∈ local'.offers, hash ∈ orphans.mapOrphanTransactions)
    (stepped : offer orphans local' outcome = some next) :
    Consistent next ∧ next.orphans = orphans := by
  rw [offer] at stepped
  cases offers : local'.offers with
  | nil =>
      rw [offers] at stepped
      cases stepped
  | cons orphanHash rest =>
      rw [offers] at stepped offered
      have stored : insertNew orphans.mapOrphanTransactions orphanHash
          nullTransaction = orphans.mapOrphanTransactions :=
        if_pos (offered orphanHash List.mem_cons_self)
      simp only [stored] at stepped
      have left : ∀ hash ∈ rest, hash ∈ orphans.mapOrphanTransactions :=
        fun hash member => offered hash (List.mem_cons_of_mem _ member)
      cases outcome <;> cases stepped <;>
        exact ⟨⟨indexed, fun later isLater => by cases isLater; exact left⟩, rfl⟩

theorem foldl_eraseOrphanTx
    (keeps : Orphans → Prop)
    (erases : ∀ orphans hash, keeps orphans → keeps (eraseOrphanTx orphans hash))
    (start : keeps orphans) (vEraseQueue : List Uint256) :
    keeps (vEraseQueue.foldl eraseOrphanTx orphans) := by
  induction vEraseQueue generalizing orphans with
  | nil => exact start
  | cons hash vEraseQueue inductionHypothesis =>
      exact inductionHypothesis (erases orphans hash start)

variable {state next : State} {event : Event}

/--
What an event does to the maps: a property that the three functions keep is
kept, but for the lookup of a hash.
-/
theorem step_cases
    (consistent : Consistent state)
    (stepped : step getHash state event = some next) :
    (∃ local' hashPrev, state.resolution = some local' ∧ event = .nextPrev ∧
      local'.vWorkQueue[local'.i]? = some hashPrev ∧ Consistent next ∧
      next.orphans.mapOrphanTransactionsByPrev =
        insertNew state.orphans.mapOrphanTransactionsByPrev hashPrev ∅) ∨
    event ≠ .nextPrev ∧
      (Indexed next.orphans → Consistent next) ∧
      ∀ keeps : Orphans → Prop, keeps state.orphans →
        (∀ orphans tx, keeps orphans →
          keeps (addOrphanTx getHash orphans tx).1) →
        (∀ orphans hash, keeps orphans → keeps (eraseOrphanTx orphans hash)) →
          keeps next.orphans := by
  rcases state with ⟨orphans, resolution⟩
  cases resolution with
  | none =>
      refine Or.inr ?_
      cases event with
      | addOrphanTx tx =>
          cases stepped
          exact ⟨nofun, fun indexed => ⟨indexed, nofun⟩,
            fun keeps start adds _ => adds _ _ start⟩
      | eraseOrphanTx hash =>
          cases stepped
          exact ⟨nofun, fun indexed => ⟨indexed, nofun⟩,
            fun keeps start _ erases => erases _ _ start⟩
      | limitOrphanTxSize nMaxOrphans getRandHash =>
          rcases Option.map_eq_some_iff.mp stepped with ⟨final, limited, rfl⟩
          refine ⟨nofun, fun indexed => ⟨indexed, nofun⟩, ?_⟩
          intro keeps start _ erases
          rcases limitOrphanTxSize_ends keeps erases start nMaxOrphans
              getRandHash with ⟨other, same, kept, -⟩
          rw [limited] at same
          cases same
          exact kept
      | accept tx =>
          cases stepped
          refine ⟨nofun, fun indexed => ⟨indexed, ?_⟩,
            fun keeps start _ _ => start⟩
          intro local' isLocal hash member
          cases isLocal
          exact absurd member List.not_mem_nil
      | nextPrev => cases stepped
      | offer outcome => cases stepped
      | eraseQueue => cases stepped
  | some local' =>
      cases event with
      | nextPrev =>
          have kept := nextPrev_consistent consistent.indexed stepped
          have looked : OrphanTxs.nextPrev orphans local' = some next := stepped
          rw [OrphanTxs.nextPrev] at looked
          split at looked
          next hashPrev _ isNext =>
            cases looked
            exact Or.inl ⟨local', hashPrev, rfl, rfl, isNext, kept, rfl⟩
          next => cases looked
      | offer outcome =>
          rcases offer_consistent consistent.indexed (consistent.offered _ rfl)
              stepped with ⟨kept, same⟩
          refine Or.inr ⟨nofun, fun _ => kept, ?_⟩
          intro keeps start _ _
          rw [same]
          exact start
      | eraseQueue =>
          refine Or.inr ?_
          have erased : OrphanTxs.eraseQueue orphans local' = some next := stepped
          rw [OrphanTxs.eraseQueue] at erased
          split_ifs at erased
          cases erased
          exact ⟨nofun, fun indexed => ⟨indexed, nofun⟩,
            fun keeps start _ erases => foldl_eraseOrphanTx keeps erases start _⟩
      | addOrphanTx tx => cases stepped
      | eraseOrphanTx hash => cases stepped
      | limitOrphanTxSize nMaxOrphans getRandHash => cases stepped
      | accept tx => cases stepped

theorem step_consistent
    (consistent : Consistent state)
    (stepped : step getHash state event = some next) : Consistent next := by
  rcases step_cases consistent stepped with
    ⟨_, _, _, _, _, kept, _⟩ | ⟨_, offered, keeps⟩
  · exact kept
  · exact offered (keeps Indexed consistent.indexed
      (fun _ tx indexed => indexed.addOrphanTx tx)
      fun _ hash indexed => indexed.eraseOrphanTx hash)

/-- An empty set is left exactly by a lookup that finds no orphans. -/
theorem step_noEmptySets_iff
    (consistent : Consistent state) (noEmpty : NoEmptySets state.orphans)
    (stepped : step getHash state event = some next) :
    NoEmptySets next.orphans ↔ FindsOrphans state event := by
  rcases step_cases consistent stepped with
    ⟨local', hashPrev, isLocal, rfl, isNext, _, changed⟩ | ⟨other, _, keeps⟩
  · have finds : FindsOrphans state .nextPrev ↔
        hashPrev ∈ state.orphans.mapOrphanTransactionsByPrev := by
      rw [mem_iff_orphansOf_nonempty (noEmpty hashPrev)]
      constructor
      · intro finds
        rcases finds local' hashPrev isLocal isNext with ⟨hash, stored⟩
        exact ⟨hash, (consistent.indexed hashPrev hash).mpr stored⟩
      · rintro ⟨hash, member⟩ later found isLater isFound
        rw [isLocal] at isLater
        cases isLater
        rw [isNext] at isFound
        cases isFound
        exact ⟨hash, (consistent.indexed hashPrev hash).mp member⟩
    rw [finds, NoEmptySets, changed]
    constructor
    · intro kept
      by_contra absent
      apply kept hashPrev
      rw [lookup_insertNew, AList.lookup_eq_none.mpr absent, if_pos rfl]
      rfl
    · intro member found
      rw [insertNew, if_pos member]
      exact noEmpty found
  · refine iff_of_true ?_ ?_
    · exact keeps NoEmptySets noEmpty
        (fun _ tx noEmpty => noEmpty.addOrphanTx tx)
        fun _ hash noEmpty => noEmpty.eraseOrphanTx hash
    · cases event with
      | nextPrev => exact absurd rfl other
      | _ => trivial

theorem Reaches.consistent
    {allowed : State → Event → Prop} (reaches : Reaches getHash allowed state) :
    Consistent state := by
  induction reaches with
  | start => exact ⟨indexed_empty, nofun⟩
  | step event _ _ stepped inductionHypothesis =>
      exact step_consistent inductionHypothesis stepped

/--
In every state the sets hold exactly the stored orphans by their parents, and
the limit ends with at most as many orphans as it allows.  No set is empty in
a run whose lookups of accepted hashes all find orphans, and the first lookup
that finds none leaves an empty set.
-/
theorem reaches_indexed (getHash : CTransaction → Uint256) :
    (∀ allowed state, Reaches getHash allowed state → Indexed state.orphans) ∧
    (∀ orphans nMaxOrphans getRandHash, ∃ limited,
      limitOrphanTxSize orphans nMaxOrphans getRandHash = some limited ∧
        limited.1.size ≤ nMaxOrphans) ∧
    (∀ state, Reaches getHash FindsOrphans state →
      NoEmptySets state.orphans) ∧
    (∀ state event next, Reaches getHash FindsOrphans state →
      step getHash state event = some next →
        (NoEmptySets next.orphans ↔ FindsOrphans state event)) := by
  have noEmpty : ∀ state, Reaches getHash FindsOrphans state →
      NoEmptySets state.orphans := by
    intro state reaches
    induction reaches with
    | start =>
        intro hashPrev
        exact nofun
    | step event before allowed stepped inductionHypothesis =>
        exact (step_noEmptySets_iff before.consistent inductionHypothesis
          stepped).mpr allowed
  refine ⟨fun _ _ reaches => reaches.consistent.indexed, ?_, noEmpty, ?_⟩
  · intro orphans nMaxOrphans getRandHash
    rcases limitOrphanTxSize_ends (fun _ => True) (fun _ _ _ => trivial)
        (show (fun _ => True) orphans from trivial) nMaxOrphans getRandHash with
      ⟨limited, ends, -, few⟩
    exact ⟨limited, ends, few⟩
  · intro state event next reaches stepped
    exact step_noEmptySets_iff reaches.consistent (noEmpty state reaches) stepped

/-- A transaction whose parent is not known. -/
def childOf (hashPrev : Uint256) : CTransaction :=
  ⟨1, [⟨⟨hashPrev, 0⟩, [], 0⟩], [], 0⟩

theorem reaches_indexed_childOf :
    NoEmptySets (addOrphanTx (fun _ => 5) .empty (childOf 3)).1 := by
  have reaches : Reaches (fun _ => 5) FindsOrphans
      ⟨(addOrphanTx (fun _ => 5) .empty (childOf 3)).1, none⟩ :=
    .step (.addOrphanTx (childOf 3)) .start trivial rfl
  exact (reaches_indexed fun _ => 5).2.2.1 _ reaches

/-- An accepted transaction without orphans leaves an empty set. -/
theorem accept_leaves_emptySet :
    ∃ state, Reaches (fun _ => 5) (fun _ _ => True) state ∧
      state.resolution = none ∧
      state.orphans.mapOrphanTransactions = ∅ ∧
      state.orphans.mapOrphanTransactionsByPrev.lookup 5 = some ∅ := by
  have accepted : Reaches (fun _ => 5) (fun _ _ => True)
      ⟨.empty, some ⟨[5], 0, [], [5]⟩⟩ :=
    .step (.accept (childOf 3)) .start trivial rfl
  have looks : nextPrev .empty ⟨[5], 0, [], [5]⟩ =
      some ⟨⟨∅, insertNew ∅ 5 ∅⟩, some ⟨[5], 1, [], [5]⟩⟩ := by
    simp [nextPrev, Orphans.empty, orphansOf]
  have looked : Reaches (fun _ => 5) (fun _ _ => True)
      ⟨⟨∅, insertNew ∅ 5 ∅⟩, some ⟨[5], 1, [], [5]⟩⟩ :=
    .step .nextPrev accepted trivial looks
  have erased : Reaches (fun _ => 5) (fun _ _ => True)
      ⟨⟨∅, insertNew ∅ 5 ∅⟩, none⟩ :=
    .step .eraseQueue looked trivial rfl
  exact ⟨_, erased, rfl, rfl, rfl⟩

end DSValue.Mempool.OrphanTxs

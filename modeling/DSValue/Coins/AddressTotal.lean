import DSValue.Coins.Transparent
import DSValue.Lib.TableOps
import DSValue.Script.Solver
import Mathlib.Data.BitVec

/-!
# What an address owns

`GetTotalCoinsValues` of a cache adds what its own entries pay an address, except
for those that the base has too, and then what the base pays.  An entry that was
changed and not flushed counts with its old outputs.  The total is that of the
logical view exactly when the cached and the stored versions of the common
entries pay the same in total.
-/

namespace DSValue.Coins.AddressTotal

open DSValue.Lib.KeepFirst
open DSValue.Lib.Stream
open DSValue.Lib.TableOps
open DSValue.Core.Serialize
open DSValue.Core.Transaction
open DSValue.Core.VarInt
open DSValue.Core.Compress
open DSValue.Core.CoinsCodec
open DSValue.Script.Scan
open DSValue.Script.Solver
open DSValue.Coins.Cache
open DSValue.Coins.Transparent

/-! ## Coins that are kept -/

/-- Coins as the cache keeps them: outputs in range, cleaned up. -/
structure Sound (coins : CCoins) : Prop where
  outputs : ∀ txout ∈ coins.vout, txout = CTxOut.null ∨ Compressible txout
  number : coins.vout.length < 2 ^ 31
  clean : ∀ last, coins.vout.getLast? = some last → last.isNull = false

/-- The coins of a record. -/
def decode (keys : PubKeyOps) (value : List UInt8) : Option CCoins :=
  match readCoins keys value with
  | .ok (coins, _) => some coins
  | .error _ => none

/--
A cache over the coin database.  The records are what `BatchWrite` writes, and
the entries of the cache come from records and transactions.
-/
structure CoinsState (keys : PubKeyOps) where
  hashBlock : Uint256
  cacheCoins : Table Uint256 CCoins
  hashBestChain : Option Uint256
  records : Table Uint256 (List UInt8)
  kept :
    ∀ txid coins, cacheCoins.lookup txid = some coins → Sound coins
  readable :
    ∀ txid value, records.lookup txid = some value →
      ∃ coins, decode keys value = some coins ∧ Sound coins

namespace CoinsState

variable {keys : PubKeyOps}

/-- The base, as a database. -/
def db (state : CoinsState keys) : CCoinsViewDB :=
  ⟨fun txid => state.records.lookup txid, state.hashBestChain⟩

/-- The cache, as a map. -/
def top (state : CoinsState keys) : CCoinsViewCache :=
  ⟨state.hashBlock, fun txid => state.cacheCoins.lookup txid⟩

end CoinsState

/-! ## The totals -/

section Totals

variable (ops : AddressOps) (address : String)

/-- The pass of the inner loop over an output. -/
def addOutput (values : Int64) (txout : CTxOut) : Int64 :=
  if ops.firstAddress txout.scriptPubKey = some address then
    values + txout.nValue
  else values

/-- The inner loop over the outputs of some coins. -/
def addCoins (values : Int64) (coins : CCoins) : Int64 :=
  coins.vout.foldl (addOutput ops address) values

/-- The loop of `CCoinsViewDB::GetTotalCoinsValues`. -/
def addRecords (keys : PubKeyOps) : List (List UInt8) → Int64 → Int64
  | [], values => values
  | value :: rest, values =>
      match readCoins keys value with
      | .error _ => 0
      | .ok (data, _) => addRecords keys rest (addCoins ops address values data)

variable {keys : PubKeyOps}

/-- `CCoinsViewDB::GetTotalCoinsValues`. -/
def CoinsState.baseTotal (state : CoinsState keys) : Int64 :=
  addRecords ops address keys
    (state.records.entries.map fun record => record.2) 0

/-- `CCoinsViewCache::GetTotalCoinsValues`. -/
def CoinsState.getTotalCoinsValues (state : CoinsState keys) : Int64 :=
  state.cacheCoins.entries.foldl
      (fun values item =>
        if item.1 ∈ state.records then values
        else addCoins ops address values item.2) 0 +
    state.baseTotal ops address

/-- What the unspent outputs of some coins pay an address. -/
def paid (coins : Option CCoins) : BitVec 64 :=
  coins.elim 0 fun coins =>
    ((coins.vout.filter fun txout =>
      !txout.isNull ∧ ops.firstAddress txout.scriptPubKey = some address).map
        fun txout => txout.nValue.toBitVec).sum

/-- What the logical view pays an address. -/
def CoinsState.unspentTotal (state : CoinsState keys) : Int64 :=
  Int64.ofBitVec (∑ txid : Uint256,
    paid ops address (getCoins keys state.db [state.top] txid).1)

/-- The transactions that the cache and the database have both. -/
def CoinsState.shared (state : CoinsState keys) : Finset Uint256 :=
  state.cacheCoins.keys.toFinset.filter fun txid => txid ∈ state.records

/--
The cached versions of the shared coins pay an address as much as the stored
ones.
-/
def CoinsState.SharedAgree (state : CoinsState keys) : Prop :=
  ∑ txid ∈ state.shared, paid ops address (state.cacheCoins.lookup txid) =
    ∑ txid ∈ state.shared, paid ops address (state.db.getCoins keys txid)

end Totals

/-! ## Sound coins -/

variable {keys : PubKeyOps} {ops : AddressOps} {address : String}
  {coins : CCoins}

theorem Sound.null_of_isNull
    (sound : Sound coins) {txout : CTxOut} (member : txout ∈ coins.vout)
    (isNull : txout.isNull = true) : txout = CTxOut.null := by
  rcases sound.outputs txout member with null | compressible
  · exact null
  · rw [isNull_of_compressible compressible] at isNull
    cases isNull

theorem sound_of_vout_eq
    {other : CCoins} (sound : Sound coins) (same : other.vout = coins.vout) :
    Sound other := by
  constructor
  · rw [same]
    exact sound.outputs
  · rw [same]
    exact sound.number
  · rw [same]
    exact sound.clean

/-- Cleaning up makes coins sound. -/
theorem sound_cleanup
    (outputs : ∀ txout ∈ coins.vout, txout = CTxOut.null ∨ Compressible txout)
    (number : coins.vout.length < 2 ^ 31) : Sound coins.cleanup := by
  have shorter := List.rdropWhile_prefix CTxOut.isNull coins.vout
  refine ⟨?_, lt_of_le_of_lt shorter.length_le number, ?_⟩
  · intro txout member
    exact outputs txout (shorter.subset member)
  · intro last isLast
    have nonempty : coins.cleanup.vout ≠ [] := by
      intro empty
      rw [empty] at isLast
      cases isLast
    rw [List.getLast?_eq_some_getLast nonempty] at isLast
    cases isLast
    exact eq_false_of_ne_true
      (List.rdropWhile_last_not CTxOut.isNull coins.vout nonempty)

theorem Sound.spend
    {nPos : Nat} {spent : CCoins} (sound : Sound coins)
    (isSpent : coins.spend nPos = some spent) : Sound spent := by
  rw [CCoins.spend] at isSpent
  split at isSpent
  · cases isSpent
  · split_ifs at isSpent
    cases isSpent
    refine sound_cleanup ?_ (by simpa using sound.number)
    intro txout member
    rcases List.mem_or_eq_of_mem_set member with old | null
    · exact sound.outputs txout old
    · exact Or.inl null

theorem sound_ofTransaction
    {tx : CTransaction} {nHeight : Int32}
    (outputs : ∀ txout ∈ tx.vout, Compressible txout)
    (number : tx.vout.length < 2 ^ 31) :
    Sound (CCoins.ofTransaction tx nHeight) := by
  refine sound_cleanup ?_ (by simpa using number)
  intro txout member
  rcases List.mem_map.mp member with ⟨original, isOriginal, rfl⟩
  split_ifs
  · exact Or.inl rfl
  · exact Or.inr (outputs original isOriginal)

/-- What is written for sound coins gives their outputs back. -/
theorem decode_writeCoins
    (recovers : keys.Recovers) (sound : Sound coins)
    (unspent : coins.isPruned = false) :
    ∃ back, decode keys (writeCoins keys coins) = some back ∧
      back.vout = coins.vout := by
  rcases exists_reads_readVarInt32 coins.nVersion with ⟨version, readsVersion⟩
  rcases exists_reads_readVarInt32 coins.nHeight with ⟨height, readsHeight⟩
  have nonempty : coins.vout ≠ [] := by
    intro empty
    rw [CCoins.isPruned, empty] at unspent
    cases unspent
  have atEnd := List.getLast?_eq_some_getLast nonempty
  have codable : Codable { coins with nVersion := 0, nHeight := 0 } :=
    ⟨le_rfl, le_rfl, sound.outputs, lt_trans sound.number (by decide),
      _, atEnd, sound.clean _ atEnd⟩
  have back :=
    reads_readCoins_of_fields recovers codable readsVersion readsHeight []
  rw [List.append_nil] at back
  refine ⟨⟨coins.fCoinBase, coins.vout, height, version⟩, ?_, rfl⟩
  rw [decode, back]

/-! ## Totals as sums -/

@[simp]
theorem paid_none : paid ops address none = 0 := rfl

theorem paid_of_vout_eq
    {other : CCoins} (same : other.vout = coins.vout) :
    paid ops address (some other) = paid ops address (some coins) := by
  rw [paid, paid, Option.elim_some, Option.elim_some, same]

theorem paid_of_isPruned (pruned : coins.isPruned = true) :
    paid ops address (some coins) = 0 := by
  rw [CCoins.isPruned, List.all_eq_true] at pruned
  have none_left : (coins.vout.filter fun txout =>
      !txout.isNull ∧ ops.firstAddress txout.scriptPubKey = some address) =
        [] := by
    rw [List.filter_eq_nil_iff]
    intro txout member
    simp [pruned txout member]
  rw [paid, Option.elim_some, none_left]
  rfl

/-- Spent outputs have no script, so the loop passes them over. -/
theorem toBitVec_addCoins (sound : Sound coins) (values : Int64) :
    (addCoins ops address values coins).toBitVec =
      values.toBitVec + paid ops address (some coins) := by
  have nulls := fun txout => @Sound.null_of_isNull coins sound txout
  rw [addCoins, paid, Option.elim_some]
  generalize coins.vout = vout at nulls
  induction vout generalizing values with
  | nil => exact (add_zero _).symm
  | cons txout vout inductionHypothesis =>
      have later := fun values => inductionHypothesis values
        fun other member => nulls other (List.mem_cons_of_mem _ member)
      rw [List.foldl_cons, later, addOutput, List.filter_cons]
      by_cases isPaid : ops.firstAddress txout.scriptPubKey = some address
      · have unspent : txout.isNull = false := by
          by_contra isNull
          rw [nulls txout List.mem_cons_self (eq_true_of_ne_false isNull),
            CTxOut.null, firstAddress_nil] at isPaid
          cases isPaid
        rw [if_pos isPaid, if_pos (by simp [unspent, isPaid]), List.map_cons,
          List.sum_cons, Int64.toBitVec_add, add_assoc]
      · rw [if_neg isPaid, if_neg (by simp [isPaid])]

theorem toBitVec_addRecords
    {values : List (List UInt8)}
    (readable :
      ∀ value ∈ values, ∃ coins, decode keys value = some coins ∧ Sound coins)
    (sum : Int64) :
    (addRecords ops address keys values sum).toBitVec =
      sum.toBitVec +
        (values.map fun value => paid ops address (decode keys value)).sum := by
  induction values generalizing sum with
  | nil => exact (add_zero _).symm
  | cons value rest inductionHypothesis =>
      rcases readable value List.mem_cons_self with ⟨coins, isCoins, sound⟩
      have later := inductionHypothesis
        fun other member => readable other (List.mem_cons_of_mem _ member)
      rw [List.map_cons, List.sum_cons, isCoins]
      rw [decode] at isCoins
      rw [addRecords]
      split at isCoins
      next data _ isRead =>
        cases isCoins
        simp only [isRead]
        rw [later, toBitVec_addCoins sound, add_assoc]
      · cases isCoins

/-- What the loop over the cache adds for one transaction. -/
def newlyPaid (ops : AddressOps) (address : String) (state : CoinsState keys)
    (txid : Uint256) : BitVec 64 :=
  (state.cacheCoins.lookup txid).elim 0 fun coins =>
    if txid ∈ state.records then 0 else paid ops address (some coins)

variable {state : CoinsState keys}

theorem toBitVec_cacheLoop (state : CoinsState keys) :
    (state.cacheCoins.entries.foldl
        (fun values item =>
          if item.1 ∈ state.records then values
          else addCoins ops address values item.2) 0).toBitVec =
      ∑ txid, newlyPaid ops address state txid := by
  have weights := total_eq_sum state.cacheCoins fun txid coins =>
    if txid ∈ state.records then 0 else paid ops address (some coins)
  have loop :
      ∀ entries : List (Sigma fun _ : Uint256 => CCoins),
        (∀ entry ∈ entries, Sound entry.2) → ∀ values : Int64,
          (entries.foldl
              (fun values item =>
                if item.1 ∈ state.records then values
                else addCoins ops address values item.2) values).toBitVec =
            values.toBitVec +
              (entries.map fun entry =>
                if entry.1 ∈ state.records then (0 : BitVec 64)
                else paid ops address (some entry.2)).sum := by
    intro entries sound
    induction entries with
    | nil => exact fun values => (add_zero _).symm
    | cons entry rest inductionHypothesis =>
        intro values
        rw [List.foldl_cons, inductionHypothesis fun other member =>
          sound other (List.mem_cons_of_mem _ member), List.map_cons,
          List.sum_cons, ← add_assoc]
        congr 1
        split_ifs
        · exact (add_zero _).symm
        · exact toBitVec_addCoins (sound entry List.mem_cons_self) values
  have sound : ∀ entry ∈ state.cacheCoins.entries, Sound entry.2 :=
    fun entry member =>
      state.kept entry.1 entry.2 (lookup_of_mem_entries member)
  rw [loop _ sound]
  exact (zero_add _).trans weights

theorem getCoins_db (state : CoinsState keys) (txid : Uint256) :
    state.db.getCoins keys txid =
      (state.records.lookup txid).bind (decode keys) := by
  have stored : state.db.stored txid = state.records.lookup txid := rfl
  rw [CCoinsViewDB.getCoins, stored]
  cases state.records.lookup txid with
  | none => rfl
  | some value => rfl

theorem toBitVec_baseTotal (state : CoinsState keys) :
    (state.baseTotal ops address).toBitVec =
      ∑ txid, paid ops address (state.db.getCoins keys txid) := by
  have weights := total_eq_sum state.records fun _ value =>
    paid ops address (decode keys value)
  have readable :
      ∀ value ∈ state.records.entries.map fun record => record.2,
        ∃ coins, decode keys value = some coins ∧ Sound coins := by
    intro value member
    rcases List.mem_map.mp member with ⟨record, isRecord, rfl⟩
    exact state.readable record.1 record.2 (lookup_of_mem_entries isRecord)
  have same : ∀ txid, paid ops address (state.db.getCoins keys txid) =
      (state.records.lookup txid).elim 0
        fun value => paid ops address (decode keys value) := by
    intro txid
    rw [getCoins_db]
    cases state.records.lookup txid with
    | none => rfl
    | some value => rfl
  rw [CoinsState.baseTotal, toBitVec_addRecords readable, List.map_map]
  simp only [same]
  exact (zero_add _).trans weights

theorem toBitVec_getTotalCoinsValues (state : CoinsState keys) :
    (state.getTotalCoinsValues ops address).toBitVec =
      ∑ txid, newlyPaid ops address state txid +
        ∑ txid, paid ops address (state.db.getCoins keys txid) := by
  rw [CoinsState.getTotalCoinsValues, Int64.toBitVec_add, toBitVec_cacheLoop,
    toBitVec_baseTotal]

/-- The logical view: the entry of the cache, else the record. -/
theorem getCoins_top (state : CoinsState keys) (txid : Uint256) :
    (getCoins keys state.db [state.top] txid).1 =
      (state.cacheCoins.lookup txid).or (state.db.getCoins keys txid) :=
  getCoins_cons txid

theorem mem_shared {txid : Uint256} :
    txid ∈ state.shared ↔
      txid ∈ state.cacheCoins ∧ txid ∈ state.records := by
  rw [CoinsState.shared, Finset.mem_filter, List.mem_toFinset]
  rfl

theorem sum_shared (weight : Uint256 → BitVec 64) :
    ∑ txid ∈ state.shared, weight txid =
      ∑ txid, if txid ∈ state.shared then weight txid else 0 := by
  rw [Finset.sum_ite_mem, Finset.univ_inter]

/-- The loops and the logical view differ in the shared transactions only. -/
theorem newlyPaid_add (txid : Uint256) :
    newlyPaid ops address state txid +
          paid ops address (state.db.getCoins keys txid) +
        (if txid ∈ state.shared then
          paid ops address (state.cacheCoins.lookup txid) else 0) =
      paid ops address (getCoins keys state.db [state.top] txid).1 +
        (if txid ∈ state.shared then
          paid ops address (state.db.getCoins keys txid) else 0) := by
  rw [getCoins_top, newlyPaid]
  cases cached : state.cacheCoins.lookup txid with
  | none =>
      have unshared : txid ∉ state.shared := by
        rw [mem_shared, mem_table_iff, cached]
        rintro ⟨⟨_, isSome⟩, -⟩
        cases isSome
      rw [if_neg unshared, if_neg unshared, Option.none_or, Option.elim_none,
        zero_add]
  | some coins =>
      have inCache : txid ∈ state.cacheCoins := mem_table_iff.mpr ⟨coins, cached⟩
      rw [Option.elim_some, Option.some_or]
      by_cases stored : txid ∈ state.records
      · have isShared := mem_shared.mpr ⟨inCache, stored⟩
        rw [if_pos stored, if_pos isShared, if_pos isShared, zero_add, add_comm]
      · have unshared : txid ∉ state.shared := fun isShared =>
          stored (mem_shared.mp isShared).2
        have missing : state.db.getCoins keys txid = none := by
          rw [getCoins_db, AList.lookup_eq_none.mpr stored]
          rfl
        rw [if_neg stored, if_neg unshared, if_neg unshared, missing, paid_none,
          add_zero]

theorem eq_iff_of_add_eq
    {A : Type*} [AddCommGroup A] {first second left right : A}
    (balance : first + left = second + right) :
    first = second ↔ left = right := by
  constructor
  · rintro rfl
    exact add_left_cancel balance
  · rintro rfl
    exact add_right_cancel balance

theorem total_eq_unspentTotal_iff (state : CoinsState keys) :
    state.getTotalCoinsValues ops address = state.unspentTotal ops address ↔
      state.SharedAgree ops address := by
  have difference :=
    Finset.sum_congr rfl fun (txid : Uint256) (_ : txid ∈ Finset.univ) =>
      @newlyPaid_add keys ops address state txid
  rw [Finset.sum_add_distrib, Finset.sum_add_distrib, Finset.sum_add_distrib,
    ← sum_shared, ← sum_shared, ← toBitVec_getTotalCoinsValues] at difference
  rw [← Int64.toBitVec_inj, CoinsState.unspentTotal, Int64.toBitVec_ofBitVec]
  exact eq_iff_of_add_eq difference

/-! ## Flushing -/

/-- The records after `BatchWrite`. -/
def CoinsState.flushedRecords (state : CoinsState keys) :
    Table Uint256 (List UInt8) :=
  updateAll state.records state.cacheCoins
    (CCoinsViewDB.batchWriteCoins keys)

theorem lookup_flushedRecords (txid : Uint256) :
    state.flushedRecords.lookup txid =
      match state.cacheCoins.lookup txid with
      | none => state.records.lookup txid
      | some coins => CCoinsViewDB.batchWriteCoins keys coins := by
  rw [CoinsState.flushedRecords, lookup_updateAll]
  cases state.cacheCoins.lookup txid with
  | none => rfl
  | some coins => rfl

theorem readable_flushedRecords
    (recovers : keys.Recovers) {txid : Uint256} {value : List UInt8}
    (found : state.flushedRecords.lookup txid = some value) :
    ∃ coins, decode keys value = some coins ∧ Sound coins := by
  rw [lookup_flushedRecords] at found
  cases cached : state.cacheCoins.lookup txid with
  | none =>
      rw [cached] at found
      exact state.readable txid value found
  | some coins =>
      simp only [cached, CCoinsViewDB.batchWriteCoins] at found
      split_ifs at found with pruned
      cases found
      have sound := state.kept txid coins cached
      rcases decode_writeCoins recovers sound (eq_false_of_ne_true pruned) with
        ⟨back, isBack, same⟩
      exact ⟨back, isBack, sound_of_vout_eq sound same⟩

/-- `CCoinsViewCache::Flush`. -/
def CoinsState.flush (recovers : keys.Recovers) (state : CoinsState keys) :
    CoinsState keys where
  hashBlock := state.hashBlock
  cacheCoins := ∅
  hashBestChain :=
    if state.hashBlock ≠ 0 then some state.hashBlock else state.hashBestChain
  records := state.flushedRecords
  kept := by
    intro txid coins found
    rw [AList.lookup_empty] at found
    cases found
  readable := fun _ _ => readable_flushedRecords recovers

/-- The state after the flush is that of the stack of views. -/
theorem flush_stack (recovers : keys.Recovers) (state : CoinsState keys) :
    Cache.flush keys state.db state.top [] =
      ⟨(state.flush recovers).db, [(state.flush recovers).top]⟩ := by
  have base : (state.flush recovers).db =
      state.db.batchWrite keys state.top.cacheCoins state.top.hashBlock := by
    refine congrArg (fun stored => CCoinsViewDB.mk stored _) ?_
    funext txid
    exact lookup_flushedRecords txid
  have cache : (state.flush recovers).top =
      { state.top with cacheCoins := fun _ => none } := by
    refine congrArg (CCoinsViewCache.mk state.hashBlock) ?_
    funext txid
    show (∅ : Table Uint256 CCoins).lookup txid = none
    rw [AList.lookup_empty]
  rw [base, cache]
  rfl

/-- A flush does not change what the logical view pays. -/
theorem paid_getCoins_flush
    (recovers : keys.Recovers) (state : CoinsState keys) (txid : Uint256) :
    paid ops address ((state.flush recovers).db.getCoins keys txid) =
      paid ops address (getCoins keys state.db [state.top] txid).1 := by
  rw [getCoins_top, getCoins_db]
  have stored := @lookup_flushedRecords keys state txid
  show paid ops address ((state.flushedRecords.lookup txid).bind _) = _
  cases cached : state.cacheCoins.lookup txid with
  | none =>
      rw [stored, cached, Option.none_or, getCoins_db]
  | some coins =>
      rw [stored, cached, Option.some_or]
      simp only [CCoinsViewDB.batchWriteCoins]
      split_ifs with pruned
      · rw [Option.bind_none, paid_none, paid_of_isPruned pruned]
      · rcases decode_writeCoins recovers (state.kept txid coins cached)
            (eq_false_of_ne_true pruned) with ⟨back, isBack, same⟩
        rw [Option.bind_some, isBack, paid_of_vout_eq same]

/-- After a flush the total is that of the logical view. -/
theorem total_flush (recovers : keys.Recovers) (state : CoinsState keys) :
    (state.flush recovers).getTotalCoinsValues ops address =
      state.unspentTotal ops address := by
  rw [← Int64.toBitVec_inj, toBitVec_getTotalCoinsValues,
    CoinsState.unspentTotal, Int64.toBitVec_ofBitVec, ← Finset.sum_add_distrib]
  refine Finset.sum_congr rfl fun txid _ => ?_
  have uncached : newlyPaid ops address (state.flush recovers) txid = 0 := by
    rw [newlyPaid, show (state.flush recovers).cacheCoins = ∅ from rfl,
      AList.lookup_empty]
    rfl
  rw [uncached, zero_add, paid_getCoins_flush]

/--
The total is that of the logical view, before and after a flush, exactly when
the cached versions of the shared coins pay as much as the stored ones.
-/
theorem getTotalCoinsValues_logical_iff
    (keys : PubKeyOps) (recovers : keys.Recovers) (ops : AddressOps)
    (state : CoinsState keys) (address : String) :
    (state.getTotalCoinsValues ops address = state.unspentTotal ops address ∧
      (state.flush recovers).getTotalCoinsValues ops address =
        state.getTotalCoinsValues ops address) ↔
      state.SharedAgree ops address := by
  rw [total_flush, ← total_eq_unspentTotal_iff]
  constructor
  · rintro ⟨same, -⟩
    exact same
  · intro same
    exact ⟨same, same.symm⟩

/-! ## A spend that was not flushed -/

/-- Addresses that name the kind of a destination. -/
def kindOps : AddressOps where
  hash160 := fun _ => []
  toString := fun destination =>
    match destination with
    | .noDestination => ""
    | .keyID _ => "key"
    | .scriptID _ => "script"

/-- Coins with one output for a key. -/
def ownedCoins : CCoins :=
  ⟨false,
    [⟨50, [OP_DUP, OP_HASH160, 20] ++ List.replicate 20 1 ++
      [OP_EQUALVERIFY, OP_CHECKSIG]⟩], 1, 1⟩

/-- The coins after the output was spent. -/
def spentCoins : CCoins := ⟨false, [], 1, 1⟩

theorem sound_ownedCoins : Sound ownedCoins where
  outputs := by
    intro txout member
    rw [List.mem_singleton.mp member]
    exact Or.inr ⟨by decide, by decide⟩
  number := by decide
  clean := by
    rintro last ⟨rfl⟩
    decide

theorem spend_ownedCoins : ownedCoins.spend 0 = some spentCoins := by decide

/-- A cached version of the stored output. -/
def cachedOver (coins : CCoins) (sound : Sound coins) : CoinsState noKeys where
  hashBlock := 2
  cacheCoins := AList.insert 1 coins ∅
  hashBestChain := some 2
  records := AList.insert 1 (writeCoins noKeys ownedCoins) ∅
  kept := by
    intro txid other found
    rw [← eq_of_lookup_singleton found]
    exact sound
  readable := by
    intro txid value found
    rw [← eq_of_lookup_singleton found]
    rcases decode_writeCoins recovers_noKeys sound_ownedCoins (by decide) with
      ⟨back, isBack, same⟩
    exact ⟨back, isBack, sound_of_vout_eq sound_ownedCoins same⟩

/-- The output was read, and nothing else. -/
theorem getTotalCoinsValues_logical_read :
    (cachedOver ownedCoins sound_ownedCoins).getTotalCoinsValues kindOps "key" =
      (cachedOver ownedCoins sound_ownedCoins).unspentTotal kindOps "key" :=
  ((getTotalCoinsValues_logical_iff noKeys recovers_noKeys kindOps
    (cachedOver ownedCoins sound_ownedCoins) "key").mpr
      (by rw [CoinsState.SharedAgree]; decide)).1

/-- The output is spent in the cache and stored in the database. -/
def unflushedSpend : CoinsState noKeys :=
  cachedOver spentCoins (sound_ownedCoins.spend spend_ownedCoins)

theorem not_sharedAgree_unflushedSpend :
    ¬ unflushedSpend.SharedAgree kindOps "key" := by
  rw [CoinsState.SharedAgree]
  decide

/-- The spent output counts until the cache is flushed. -/
theorem unflushedSpend_counts :
    unflushedSpend.getTotalCoinsValues kindOps "key" = 50 ∧
      unflushedSpend.getTotalCoinsValues kindOps "key" ≠
        unflushedSpend.unspentTotal kindOps "key" ∧
      (unflushedSpend.flush recovers_noKeys).getTotalCoinsValues kindOps "key" ≠
        unflushedSpend.getTotalCoinsValues kindOps "key" := by
  have different :
      unflushedSpend.getTotalCoinsValues kindOps "key" ≠
        unflushedSpend.unspentTotal kindOps "key" :=
    fun same => not_sharedAgree_unflushedSpend
      ((total_eq_unspentTotal_iff unflushedSpend).mp same)
  refine ⟨by decide, different, ?_⟩
  rw [total_flush]
  exact different.symm

end DSValue.Coins.AddressTotal

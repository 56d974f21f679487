import DSValue.Core.CoinsCodec
import DSValue.Lib.MachineInt

/-!
# Caches over the coin database

`CCoinsViewCache` keeps the coins that were read or changed in a map over a
base view, which is another cache or the database.  A read copies what it
finds into every cache on the way.  `Flush` writes the whole map into the base
and clears it; the database erases fully spent coins, a cache keeps them.
The hash of the best block is loaded from the base on demand, and zero stands
for a hash that was not loaded.

A stack of caches is a list with the topmost cache first.  Writing to the
database is taken to succeed.
-/

namespace DSValue.Coins.Cache

open DSValue.Lib
open DSValue.Core.Serialize
open DSValue.Core.Transaction
open DSValue.Core.Compress
open DSValue.Core.CoinsCodec

/-! ## The database -/

/-- `CCoinsViewDB`, with the records `'c'` and `'B'`. -/
structure CCoinsViewDB where
  stored : Uint256 → Option (List UInt8)
  hashBestChain : Option Uint256

namespace CCoinsViewDB

/-- `CCoinsViewDB::GetCoins`. -/
def getCoins (keys : PubKeyOps) (db : CCoinsViewDB) (txid : Uint256) :
    Option CCoins :=
  match db.stored txid with
  | none => none
  | some value =>
      match readCoins keys value with
      | .ok (coins, _) => some coins
      | .error _ => none

/-- `CCoinsViewDB::GetBestBlock`. -/
def getBestBlock (db : CCoinsViewDB) : Uint256 :=
  db.hashBestChain.getD 0

/-- What `BatchWriteCoins` makes of a record. -/
def batchWriteCoins (keys : PubKeyOps) (coins : CCoins) :
    Option (List UInt8) :=
  if coins.isPruned then none else some (writeCoins keys coins)

/-- `CCoinsViewDB::BatchWrite`. -/
def batchWrite (keys : PubKeyOps) (db : CCoinsViewDB)
    (mapCoins : Uint256 → Option CCoins) (hashBlock : Uint256) :
    CCoinsViewDB where
  stored := fun txid =>
    match mapCoins txid with
    | none => db.stored txid
    | some coins => batchWriteCoins keys coins
  hashBestChain := if hashBlock ≠ 0 then some hashBlock else db.hashBestChain

end CCoinsViewDB

/-! ## One cache -/

/-- `CCoinsViewCache`, without its base. -/
structure CCoinsViewCache where
  hashBlock : Uint256
  cacheCoins : Uint256 → Option CCoins

namespace CCoinsViewCache

/-- The constructor. -/
def opened : CCoinsViewCache :=
  ⟨0, fun _ => none⟩

/-- `cacheCoins[txid] = coins`. -/
def insert (cache : CCoinsViewCache) (txid : Uint256) (coins : CCoins) :
    CCoinsViewCache :=
  { cache with
    cacheCoins := fun other =>
      if other = txid then some coins else cache.cacheCoins other }

/-- `CCoinsViewCache::BatchWrite`. -/
def batchWrite (cache : CCoinsViewCache)
    (mapCoins : Uint256 → Option CCoins) (hashBlockIn : Uint256) :
    CCoinsViewCache where
  hashBlock := hashBlockIn
  cacheCoins := fun txid =>
    match mapCoins txid with
    | none => cache.cacheCoins txid
    | some coins => some coins

end CCoinsViewCache

/-! ## A stack of caches -/

/-- Caches over the database, the topmost first. -/
structure Stack where
  db : CCoinsViewDB
  caches : List CCoinsViewCache

/-- `GetCoins(txid, coins)` of the topmost view. -/
def getCoins (keys : PubKeyOps) (db : CCoinsViewDB) :
    List CCoinsViewCache → Uint256 → Option CCoins × List CCoinsViewCache
  | [], txid => (db.getCoins keys txid, [])
  | cache :: base, txid =>
      match cache.cacheCoins txid with
      | some coins => (some coins, cache :: base)
      | none =>
          match getCoins keys db base txid with
          | (some coins, below) =>
              (some coins, cache.insert txid coins :: below)
          | (none, below) => (none, cache :: below)

/-- `GetBestBlock` of the topmost view. -/
def getBestBlock (db : CCoinsViewDB) :
    List CCoinsViewCache → Uint256 × List CCoinsViewCache
  | [] => (db.getBestBlock, [])
  | cache :: base =>
      if cache.hashBlock = 0 then
        ((getBestBlock db base).1,
          { cache with hashBlock := (getBestBlock db base).1 } ::
            (getBestBlock db base).2)
      else (cache.hashBlock, cache :: base)

/-- `Flush` of the topmost cache. -/
def flush (keys : PubKeyOps) (db : CCoinsViewDB) (cache : CCoinsViewCache) :
    List CCoinsViewCache → Stack
  | [] =>
      ⟨db.batchWrite keys cache.cacheCoins cache.hashBlock,
        [{ cache with cacheCoins := fun _ => none }]⟩
  | below :: rest =>
      ⟨db, { cache with cacheCoins := fun _ => none } ::
        below.batchWrite cache.cacheCoins cache.hashBlock :: rest⟩

/-- What can be done with the topmost cache. -/
inductive Op where
  | getCoins (txid : Uint256)
  | haveCoins (txid : Uint256)
  | setCoins (txid : Uint256) (coins : CCoins)
  | modify (txid : Uint256) (change : CCoins → CCoins)
  | getBestBlock
  | setBestBlock (hashBlock : Uint256)
  | flush
  | open
  | drop

/-- What an operation returns. -/
inductive Answer where
  | done
  | coins (found : Option CCoins)
  | have (found : Bool)
  | best (hashBlock : Uint256)

/-- The reference of `GetCoins(txid)`, used to change the coins in place. -/
def modify (keys : PubKeyOps) (db : CCoinsViewDB)
    (caches : List CCoinsViewCache) (txid : Uint256)
    (change : CCoins → CCoins) : Except Fault (List CCoinsViewCache) :=
  match getCoins keys db caches txid with
  | (some coins, cache :: base) =>
      .ok (cache.insert txid (change coins) :: base)
  | _ => .error .assertion

/-- One operation on the topmost cache. -/
def stepTop (keys : PubKeyOps) (db : CCoinsViewDB) (cache : CCoinsViewCache)
    (base : List CCoinsViewCache) : Op → Except Fault (Stack × Answer)
  | .getCoins txid =>
      let fetched := getCoins keys db (cache :: base) txid
      pure (⟨db, fetched.2⟩, .coins fetched.1)
  | .haveCoins txid =>
      let fetched := getCoins keys db (cache :: base) txid
      pure (⟨db, fetched.2⟩, .have fetched.1.isSome)
  | .setCoins txid coins =>
      pure (⟨db, cache.insert txid coins :: base⟩, .done)
  | .modify txid change => do
      let caches ← modify keys db (cache :: base) txid change
      pure (⟨db, caches⟩, .done)
  | .getBestBlock =>
      let loaded := getBestBlock db (cache :: base)
      pure (⟨db, loaded.2⟩, .best loaded.1)
  | .setBestBlock hashBlock =>
      pure (⟨db, { cache with hashBlock := hashBlock } :: base⟩, .done)
  | .flush => pure (flush keys db cache base, .done)
  | .open => pure (⟨db, .opened :: cache :: base⟩, .done)
  | .drop => pure (⟨db, base⟩, .done)

/-- One operation.  Over the bare database only a cache can be opened. -/
def step (keys : PubKeyOps) (stack : Stack) (op : Op) :
    Except Fault (Stack × Answer) :=
  match stack.caches, op with
  | [], .open => pure (⟨stack.db, [.opened]⟩, .done)
  | [], _ => throw .outOfRange
  | cache :: base, op => stepTop keys stack.db cache base op

/-- A sequence of operations and their answers. -/
def run (keys : PubKeyOps) (stack : Stack) :
    List Op → Except Fault (Stack × List Answer)
  | [] => pure (stack, [])
  | op :: ops => do
      let next ← step keys stack op
      let last ← run keys next.1 ops
      pure (last.1, next.2 :: last.2)

/-- The coins that count, with fully spent ones as absent. -/
def logical (coins : Option CCoins) : Option CCoins :=
  coins.filter fun found => !found.isPruned

/-- The logical content of a view: its coins and its best block. -/
structure Content where
  coins : Uint256 → Option CCoins
  best : Uint256

/-- What is seen through the topmost of some caches. -/
def content (keys : PubKeyOps) (db : CCoinsViewDB)
    (caches : List CCoinsViewCache) : Content where
  coins := fun txid => logical (getCoins keys db caches txid).1
  best := (getBestBlock db caches).1

end DSValue.Coins.Cache

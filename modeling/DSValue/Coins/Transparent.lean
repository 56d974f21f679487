import DSValue.Coins.Cache

/-!
# Caches are transparent

A stack of caches is compared with a stack of flat maps, one for each view,
which copy the map of the view below when a cache is opened and hand their
own map down when it is flushed.  Both agree on every coin that is not fully
spent and on the best block, at every level.

Fully spent coins that reach the database are gone, while the flat map still
holds them; a cache that holds them holds exactly those of the flat map, so
that changing them in place has the same effect.
-/

namespace DSValue.Coins.Transparent

open DSValue.Lib
open DSValue.Core.Serialize
open DSValue.Core.Transaction
open DSValue.Core.Compress
open DSValue.Core.CoinsCodec
open DSValue.Coins.Cache

/-! ## The flat maps -/

/-- A map of coins with a best block. -/
structure Flat where
  coins : Uint256 → Option CCoins
  best : Uint256

/-- `coins[txid] = value`. -/
def Flat.insert (flat : Flat) (txid : Uint256) (value : Option CCoins) :
    Flat :=
  { flat with
    coins := fun other => if other = txid then value else flat.coins other }

/-- What an operation does to the flat maps, the topmost first. -/
def flatStep : List Flat → Op → List Flat × Answer
  | [], _ => ([], .done)
  | flat :: rest, .getCoins txid =>
      (flat :: rest, .coins (flat.coins txid))
  | flat :: rest, .haveCoins txid =>
      (flat :: rest, .coins (flat.coins txid))
  | flat :: rest, .setCoins txid coins =>
      (flat.insert txid (some coins) :: rest, .done)
  | flat :: rest, .modify txid change =>
      (flat.insert txid ((flat.coins txid).map change) :: rest, .done)
  | flat :: rest, .getBestBlock => (flat :: rest, .best flat.best)
  | flat :: rest, .setBestBlock hashBlock =>
      ({ flat with best := hashBlock } :: rest, .done)
  | flat :: rest, .flush => (flat :: flat :: rest.tail, .done)
  | flat :: rest, .open => (flat :: flat :: rest, .done)
  | _ :: rest, .drop => (rest, .done)

def flatRun (flats : List Flat) : List Op → List Flat × List Answer
  | [] => (flats, [])
  | op :: ops =>
      ((flatRun (flatStep flats op).1 ops).1,
        (flatStep flats op).2 :: (flatRun (flatStep flats op).1 ops).2)

/-- The flat map of a database. -/
def flatOf (keys : PubKeyOps) (db : CCoinsViewDB) : Flat where
  coins := db.getCoins keys
  best := db.getBestBlock

/--
Answers agree up to fully spent coins.  `HaveCoins` may or may not report
these.
-/
inductive Agrees : Answer → Answer → Prop where
  | done : Agrees .done .done
  | coins {found expected : Option CCoins}
      (same : logical found = logical expected) :
      Agrees (.coins found) (.coins expected)
  | have {found : Bool} {expected : Option CCoins}
      (known : found = true → expected.isSome = true)
      (reported : (logical expected).isSome = true → found = true) :
      Agrees (.have found) (.coins expected)
  | best {hashBlock : Uint256} : Agrees (.best hashBlock) (.best hashBlock)

/-! ## Which sequences are meant -/

/-- For each cache, whether its best block was read or set. -/
def askedAfter : List Bool → Op → List Bool
  | asked, .open => false :: asked
  | _ :: asked, .getBestBlock => true :: asked
  | _ :: asked, .setBestBlock _ => true :: asked
  | _ :: asked, .drop => asked
  | asked, _ => asked

/-- A flushed cache has had its best block read or set before. -/
def FlushesAsked : List Bool → List Op → Prop
  | _, [] => True
  | asked, op :: ops =>
      (op = .flush → asked.head? = some true) ∧
        FlushesAsked (askedAfter asked op) ops

/-- Coins that the database can hold or that it erases. -/
def Keepable (coins : CCoins) : Prop :=
  coins.isPruned = true ∨ Storable coins

/--
The coins an operation leaves can be kept, and no block has the hash that
stands for an unknown one.
-/
def Keeps : Op → Prop
  | .setCoins _ coins => Keepable coins
  | .modify _ change => ∀ coins, Keepable coins → Keepable (change coins)
  | .setBestBlock hashBlock => hashBlock ≠ 0
  | _ => True

/-- What can be read from the database can be kept. -/
def Holds (keys : PubKeyOps) (db : CCoinsViewDB) : Prop :=
  ∀ txid coins, db.getCoins keys txid = some coins → Keepable coins

/-! ## Reading through the caches -/

section Reading

variable {keys : PubKeyOps} {db : CCoinsViewDB} {cache : CCoinsViewCache}
  {base : List CCoinsViewCache}

theorem getCoins_cons (txid : Uint256) :
    (getCoins keys db (cache :: base) txid).1 =
      (cache.cacheCoins txid).or (getCoins keys db base txid).1 := by
  rw [getCoins]
  cases cache.cacheCoins txid with
  | some coins => rfl
  | none =>
      rcases getCoins keys db base txid with ⟨_ | coins, below⟩
      · rfl
      · rfl

theorem getBestBlock_cons :
    (getBestBlock db (cache :: base)).1 =
      if cache.hashBlock = 0 then (getBestBlock db base).1
      else cache.hashBlock := by
  rw [getBestBlock]
  split_ifs <;> rfl

theorem insert_self (txid : Uint256) (coins : CCoins) :
    (cache.insert txid coins).cacheCoins txid = some coins :=
  if_pos rfl

theorem insert_of_ne {txid other : Uint256} (coins : CCoins)
    (differs : other ≠ txid) :
    (cache.insert txid coins).cacheCoins other = cache.cacheCoins other :=
  if_neg differs

theorem keepable_of_getCoins
    {caches : List CCoinsViewCache} (holds : Holds keys db)
    (cached :
      ∀ cache ∈ caches, ∀ txid coins,
        cache.cacheCoins txid = some coins → Keepable coins)
    {txid : Uint256} {coins : CCoins}
    (found : (getCoins keys db caches txid).1 = some coins) :
    Keepable coins := by
  induction caches with
  | nil => exact holds txid coins found
  | cons cache base inductionHypothesis =>
      rw [getCoins_cons, Option.or_eq_some_iff] at found
      rcases found with inCache | ⟨-, below⟩
      · exact cached cache (by simp) txid coins inCache
      · exact inductionHypothesis
          (fun other member => cached other (List.mem_cons_of_mem _ member))
          below

end Reading

/-! ## The simulation -/

/-- A view agrees with a flat map. -/
structure Matches
    (keys : PubKeyOps) (db : CCoinsViewDB) (caches : List CCoinsViewCache)
    (flat : Flat) : Prop where
  coins :
    ∀ txid,
      (getCoins keys db caches txid).1 = flat.coins txid ∨
        (getCoins keys db caches txid).1 = none ∧
          logical (flat.coins txid) = none
  best : (getBestBlock db caches).1 = flat.best

/-- Every view of the stack agrees with its flat map. -/
inductive Simulates (keys : PubKeyOps) (db : CCoinsViewDB) :
    List CCoinsViewCache → List Bool → List Flat → Prop where
  | bottom {flat : Flat} (agrees : Matches keys db [] flat) :
      Simulates keys db [] [] [flat]
  | above {cache : CCoinsViewCache} {base : List CCoinsViewCache}
      {asked : Bool} {askeds : List Bool} {flat : Flat} {flats : List Flat}
      (agrees : Matches keys db (cache :: base) flat)
      (keepable :
        ∀ txid coins, cache.cacheCoins txid = some coins → Keepable coins)
      (loaded :
        asked = true →
          cache.hashBlock = (getBestBlock db (cache :: base)).1)
      (below : Simulates keys db base askeds flats) :
      Simulates keys db (cache :: base) (asked :: askeds) (flat :: flats)

section Simulation

variable {keys : PubKeyOps} {db : CCoinsViewDB} {cache : CCoinsViewCache}
  {caches base : List CCoinsViewCache} {asked : List Bool}
  {flat : Flat} {flats : List Flat}

/-- Two lists of caches show the same. -/
def SameView (keys : PubKeyOps) (db : CCoinsViewDB)
    (first second : List CCoinsViewCache) : Prop :=
  (∀ txid, (getCoins keys db first txid).1 = (getCoins keys db second txid).1) ∧
    (getBestBlock db first).1 = (getBestBlock db second).1

theorem Matches.congr
    (agrees : Matches keys db caches flat)
    (same : SameView keys db base caches) :
    Matches keys db base flat := by
  constructor
  · intro txid
    rw [same.1]
    exact agrees.coins txid
  · rw [same.2]
    exact agrees.best

theorem Matches.logical
    (agrees : Matches keys db caches flat) (txid : Uint256) :
    logical (getCoins keys db caches txid).1 = logical (flat.coins txid) := by
  rcases agrees.coins txid with same | ⟨absent, spent⟩
  · rw [same]
  · rw [absent, spent]
    rfl

theorem Simulates.cached
    (simulates : Simulates keys db caches asked flats) :
    ∀ cache ∈ caches, ∀ txid coins,
      cache.cacheCoins txid = some coins → Keepable coins := by
  induction simulates with
  | bottom agrees => simp
  | above agrees keepable loaded below inductionHypothesis =>
      intro cache member
      rcases List.mem_cons.mp member with rfl | later
      · exact keepable
      · exact inductionHypothesis cache later

/-- A read shows the same afterwards. -/
theorem sameView_getCoins
    (keys : PubKeyOps) (db : CCoinsViewDB) (caches : List CCoinsViewCache)
    (txid : Uint256) :
    SameView keys db (getCoins keys db caches txid).2 caches := by
  induction caches with
  | nil => exact ⟨fun _ => rfl, rfl⟩
  | cons cache base inductionHypothesis =>
      cases inCache : cache.cacheCoins txid with
      | some coins =>
          rw [getCoins, inCache]
          exact ⟨fun _ => rfl, rfl⟩
      | none =>
          rcases fetched : getCoins keys db base txid with
            ⟨_ | coins, below⟩
          · rw [fetched] at inductionHypothesis
            rw [getCoins, inCache, fetched]
            constructor
            · intro other
              rw [getCoins_cons, getCoins_cons, inductionHypothesis.1]
            · rw [getBestBlock_cons, getBestBlock_cons,
                inductionHypothesis.2]
          · rw [fetched] at inductionHypothesis
            rw [getCoins, inCache, fetched]
            constructor
            · intro other
              rw [getCoins_cons, getCoins_cons, inductionHypothesis.1]
              by_cases same : other = txid
              · rw [same, insert_self, inCache, fetched]
                rfl
              · rw [insert_of_ne coins same]
            · rw [getBestBlock_cons, getBestBlock_cons,
                inductionHypothesis.2]
              rfl

/-- Reading the best block shows the same afterwards. -/
theorem sameView_getBestBlock
    (keys : PubKeyOps) (db : CCoinsViewDB) (caches : List CCoinsViewCache) :
    SameView keys db (getBestBlock db caches).2 caches := by
  induction caches with
  | nil => exact ⟨fun _ => rfl, rfl⟩
  | cons cache base inductionHypothesis =>
      rw [getBestBlock]
      split_ifs with notLoaded
      · constructor
        · intro other
          rw [getCoins_cons, getCoins_cons, inductionHypothesis.1]
        · rw [getBestBlock_cons, getBestBlock_cons, if_pos notLoaded,
            inductionHypothesis.2]
          simp
      · exact ⟨fun _ => rfl, rfl⟩

/-- A read keeps the simulation. -/
theorem Simulates.getCoins
    (simulates : Simulates keys db caches asked flats) (holds : Holds keys db)
    (txid : Uint256) :
    Simulates keys db (getCoins keys db caches txid).2 asked flats := by
  induction simulates with
  | bottom agrees => exact .bottom agrees
  | @above cache base asked askeds flat flats agrees keepable loaded below
      inductionHypothesis =>
      have same := sameView_getCoins keys db (cache :: base) txid
      cases inCache : cache.cacheCoins txid with
      | some coins =>
          rw [Cache.getCoins, inCache]
          exact .above agrees keepable loaded below
      | none =>
          rcases fetched : Cache.getCoins keys db base txid with
            ⟨_ | coins, base'⟩
          · rw [Cache.getCoins, inCache, fetched] at same ⊢
            rw [fetched] at inductionHypothesis
            refine .above (agrees.congr same) keepable ?_ inductionHypothesis
            intro isAsked
            rw [same.2]
            exact loaded isAsked
          · have found : (Cache.getCoins keys db base txid).1 = some coins := by
              rw [fetched]
            rw [Cache.getCoins, inCache, fetched] at same ⊢
            rw [fetched] at inductionHypothesis
            refine .above (agrees.congr same) ?_ ?_ inductionHypothesis
            · intro other value inserted
              by_cases isKey : other = txid
              · rw [isKey, insert_self, Option.some.injEq] at inserted
                rw [← inserted]
                exact keepable_of_getCoins holds below.cached found
              · rw [insert_of_ne coins isKey] at inserted
                exact keepable other value inserted
            · intro isAsked
              rw [same.2]
              exact loaded isAsked

/-- A cache that loaded the best block of its base holds its own. -/
theorem hashBlock_loaded
    (keys : PubKeyOps) (db : CCoinsViewDB) (cache : CCoinsViewCache)
    (base : List CCoinsViewCache) :
    (getBestBlock db base).1 =
      (getBestBlock db
        ({ cache with hashBlock := (getBestBlock db base).1 } ::
          (getBestBlock db base).2)).1 := by
  rw [getBestBlock_cons, (sameView_getBestBlock keys db base).2]
  simp

/-- Loading the best block keeps the simulation. -/
theorem Simulates.loadBestBlock
    (simulates : Simulates keys db caches asked flats) :
    Simulates keys db (getBestBlock db caches).2 asked flats := by
  induction simulates with
  | bottom agrees => exact .bottom agrees
  | @above cache base isAsked askeds flat flats agrees keepable loaded below
      inductionHypothesis =>
      have same := sameView_getBestBlock keys db (cache :: base)
      rw [getBestBlock] at same ⊢
      split_ifs at same ⊢ with notLoaded
      · exact .above (agrees.congr same) keepable
          (fun _ => hashBlock_loaded keys db cache base) inductionHypothesis
      · exact .above agrees keepable loaded below

/-- Reading the best block also marks the topmost cache as asked. -/
theorem Simulates.askBestBlock
    {isAsked : Bool}
    (simulates :
      Simulates keys db (cache :: base) (isAsked :: asked) flats) :
    Simulates keys db (getBestBlock db (cache :: base)).2 (true :: asked)
      flats := by
  cases simulates with
  | above agrees keepable loaded below =>
      have same := sameView_getBestBlock keys db (cache :: base)
      rw [getBestBlock] at same ⊢
      split_ifs at same ⊢ with notLoaded
      · exact .above (agrees.congr same) keepable
          (fun _ => hashBlock_loaded keys db cache base) below.loadBestBlock
      · refine .above agrees keepable ?_ below
        intro _
        rw [getBestBlock_cons, if_neg notLoaded]

/-! ## Writing -/

/-- Coins that are set shadow what lies below. -/
theorem Simulates.insert
    {isAsked : Bool} {coins : CCoins}
    (simulates :
      Simulates keys db (cache :: base) (isAsked :: asked) (flat :: flats))
    (txid : Uint256) (keepable : Keepable coins) :
    Simulates keys db (cache.insert txid coins :: base) (isAsked :: asked)
      (flat.insert txid (some coins) :: flats) := by
  cases simulates with
  | above agrees cached loaded below =>
      refine .above ⟨?_, ?_⟩ ?_ ?_ below
      · intro other
        rw [getCoins_cons]
        by_cases same : other = txid
        · left
          rw [same, insert_self]
          exact (if_pos rfl).symm
        · have agreement := agrees.coins other
          rw [getCoins_cons] at agreement
          rw [insert_of_ne coins same]
          have kept :
              (flat.insert txid (some coins)).coins other =
                flat.coins other :=
            if_neg same
          rw [kept]
          exact agreement
      · have best : (flat.insert txid (some coins)).best = flat.best := rfl
        rw [best, ← agrees.best, getBestBlock_cons, getBestBlock_cons]
        rfl
      · intro other value inserted
        by_cases isKey : other = txid
        · rw [isKey, insert_self, Option.some.injEq] at inserted
          rw [← inserted]
          exact keepable
        · rw [insert_of_ne coins isKey] at inserted
          exact cached other value inserted
      · intro isAsked
        have known := loaded isAsked
        rw [getBestBlock_cons] at known ⊢
        exact known

theorem getCoins_eq_cons
    (keys : PubKeyOps) (db : CCoinsViewDB) (cache : CCoinsViewCache)
    (base : List CCoinsViewCache) (txid : Uint256) :
    ∃ top below, (getCoins keys db (cache :: base) txid).2 = top :: below := by
  rw [getCoins]
  cases cache.cacheCoins txid with
  | some coins => exact ⟨cache, base, rfl⟩
  | none =>
      rcases getCoins keys db base txid with ⟨_ | coins, below⟩
      · exact ⟨cache, below, rfl⟩
      · exact ⟨cache.insert txid coins, below, rfl⟩

/-- Changing coins in place is setting the changed coins. -/
theorem Simulates.modify
    {isAsked : Bool} {txid : Uint256} {change : CCoins → CCoins}
    {next : List CCoinsViewCache}
    (simulates :
      Simulates keys db (cache :: base) (isAsked :: asked) (flat :: flats))
    (holds : Holds keys db)
    (keeps : ∀ coins, Keepable coins → Keepable (change coins))
    (changed : modify keys db (cache :: base) txid change = .ok next) :
    Simulates keys db next (isAsked :: asked)
      (flat.insert txid ((flat.coins txid).map change) :: flats) := by
  rcases getCoins_eq_cons keys db cache base txid with ⟨top, below, shape⟩
  have read := simulates.getCoins holds txid
  rw [shape] at read
  rw [Cache.modify] at changed
  rcases fetched : Cache.getCoins keys db (cache :: base) txid with
    ⟨found, caches⟩
  rw [fetched] at changed shape
  simp only at shape
  rw [shape] at changed
  cases found with
  | none => cases changed
  | some coins =>
      cases changed
      have isFound :
          (Cache.getCoins keys db (cache :: base) txid).1 = some coins := by
        rw [fetched]
      have keepable :=
        keepable_of_getCoins holds simulates.cached isFound
      have known : flat.coins txid = some coins := by
        cases simulates with
        | above agrees cached loaded rest =>
            rcases agrees.coins txid with same | ⟨absent, -⟩
            · rw [← same, isFound]
            · rw [isFound] at absent
              cases absent
      rw [known]
      exact read.insert txid (keeps coins keepable)

/-! ## Flushing -/

theorem db_getCoins_batchWrite
    (recovers : keys.Recovers)
    (keepable :
      ∀ txid coins, cache.cacheCoins txid = some coins → Keepable coins)
    (hashBlock : Uint256) (txid : Uint256) :
    (db.batchWrite keys cache.cacheCoins hashBlock).getCoins keys txid =
      match cache.cacheCoins txid with
      | none => db.getCoins keys txid
      | some coins => if coins.isPruned then none else some coins := by
  have stored :
      (db.batchWrite keys cache.cacheCoins hashBlock).stored txid =
        match cache.cacheCoins txid with
        | none => db.stored txid
        | some coins => CCoinsViewDB.batchWriteCoins keys coins := rfl
  rw [CCoinsViewDB.getCoins, stored]
  cases inCache : cache.cacheCoins txid with
  | none => rfl
  | some coins =>
      simp only [CCoinsViewDB.batchWriteCoins]
      split_ifs with spent
      · rfl
      · rcases keepable txid coins inCache with pruned | storable
        · exact absurd pruned spent
        · simp only [(reads_readCoins recovers storable).done]

/-- What is handed down agrees with the flat map of the cache. -/
theorem Matches.flush_db
    (recovers : keys.Recovers)
    (agrees : Matches keys db [cache] flat)
    (keepable :
      ∀ txid coins, cache.cacheCoins txid = some coins → Keepable coins)
    (loaded : cache.hashBlock = (getBestBlock db [cache]).1) :
    Matches keys (db.batchWrite keys cache.cacheCoins cache.hashBlock) []
      flat := by
  constructor
  · intro txid
    have agreement := agrees.coins txid
    rw [getCoins_cons] at agreement
    rw [getCoins, db_getCoins_batchWrite recovers keepable]
    cases inCache : cache.cacheCoins txid with
    | none =>
        rw [inCache, Option.none_or, getCoins] at agreement
        exact agreement
    | some coins =>
        rw [inCache, Option.some_or] at agreement
        rcases agreement with same | ⟨absent, -⟩
        · simp only
          split_ifs with spent
          · right
            rw [← same]
            simp [Cache.logical, spent]
          · exact Or.inl same
        · cases absent
  · rw [← agrees.best, ← loaded, getBestBlock, CCoinsViewDB.getBestBlock,
      CCoinsViewDB.batchWrite]
    by_cases isZero : cache.hashBlock = 0
    · rw [getBestBlock_cons, if_pos isZero] at loaded
      simp only [isZero, ne_eq, not_true_eq_false, if_false]
      exact loaded.symm.trans isZero
    · simp only [isZero, ne_eq, not_false_eq_true, if_true, Option.getD_some]

theorem Holds.flush_db
    (recovers : keys.Recovers) (holds : Holds keys db)
    (keepable :
      ∀ txid coins, cache.cacheCoins txid = some coins → Keepable coins)
    (hashBlock : Uint256) :
    Holds keys (db.batchWrite keys cache.cacheCoins hashBlock) := by
  intro txid coins found
  rw [db_getCoins_batchWrite recovers keepable] at found
  cases inCache : cache.cacheCoins txid with
  | none =>
      rw [inCache] at found
      exact holds txid coins found
  | some kept =>
      rw [inCache] at found
      simp only at found
      split_ifs at found
      rw [← Option.some.inj found]
      exact keepable txid kept inCache

/-- A cleared cache shows what lies below it. -/
theorem Matches.cleared
    (agrees : Matches keys db base flat)
    (loaded : cache.hashBlock = flat.best) :
    Matches keys db ({ cache with cacheCoins := fun _ => none } :: base)
      flat := by
  constructor
  · intro txid
    rw [getCoins_cons, Option.none_or]
    exact agrees.coins txid
  · rw [getBestBlock_cons, agrees.best]
    simp only
    split_ifs with isZero
    · rfl
    · exact loaded

theorem batchWrite_cacheCoins
    (below : CCoinsViewCache) (hashBlock : Uint256) (txid : Uint256) :
    (below.batchWrite cache.cacheCoins hashBlock).cacheCoins txid =
      (cache.cacheCoins txid).or (below.cacheCoins txid) := by
  rw [CCoinsViewCache.batchWrite]
  cases inCache : cache.cacheCoins txid with
  | none => simp only [inCache, Option.none_or]
  | some coins => simp only [inCache, Option.some_or]

theorem Matches.flush_cache
    {below : CCoinsViewCache} {rest : List CCoinsViewCache}
    (agrees : Matches keys db (cache :: below :: rest) flat)
    (loaded :
      cache.hashBlock = (getBestBlock db (cache :: below :: rest)).1) :
    Matches keys db
      (below.batchWrite cache.cacheCoins cache.hashBlock :: rest) flat := by
  constructor
  · intro txid
    have agreement := agrees.coins txid
    rw [getCoins_cons, getCoins_cons, ← Option.or_assoc] at agreement
    rw [getCoins_cons, batchWrite_cacheCoins]
    exact agreement
  · have written :
        (below.batchWrite cache.cacheCoins cache.hashBlock).hashBlock =
          cache.hashBlock := rfl
    rw [← agrees.best, ← loaded, getBestBlock_cons, written]
    split_ifs with isZero
    · rw [getBestBlock_cons, if_pos isZero, getBestBlock_cons] at loaded
      split_ifs at loaded with belowZero
      · exact loaded.symm
      · exact absurd (loaded.symm.trans isZero) belowZero
    · rfl

/-- `Flush` hands the content down and keeps the simulation. -/
theorem Simulates.flush
    (recovers : keys.Recovers) (holds : Holds keys db)
    (simulates :
      Simulates keys db (cache :: base) (true :: asked) (flat :: flats)) :
    Simulates keys (flush keys db cache base).db
        (flush keys db cache base).caches (true :: asked)
        (flat :: flat :: flats.tail) ∧
      Holds keys (flush keys db cache base).db := by
  cases simulates with
  | above agrees keepable loaded below =>
      have known := loaded rfl
      have best : cache.hashBlock = flat.best := known.trans agrees.best
      cases below with
      | bottom bottomAgrees =>
          have handed := agrees.flush_db recovers keepable known
          have cleared := handed.cleared best
          refine ⟨.above cleared (by simp) ?_ (.bottom handed),
            holds.flush_db recovers keepable cache.hashBlock⟩
          intro _
          exact best.trans cleared.best.symm
      | @above lower rest lowerAsked askeds lowerFlat lowerFlats lowerAgrees
          lowerKeepable lowerLoaded bottom =>
          have handed := agrees.flush_cache known
          have cleared := handed.cleared best
          refine ⟨.above cleared (by simp) ?_
            (.above handed ?_ ?_ bottom), holds⟩
          · intro _
            exact best.trans cleared.best.symm
          · intro txid coins found
            rw [batchWrite_cacheCoins, Option.or_eq_some_iff] at found
            rcases found with inCache | ⟨-, inBelow⟩
            · exact keepable txid coins inCache
            · exact lowerKeepable txid coins inBelow
          · intro _
            exact best.trans handed.best.symm

/-! ## Runs -/

/-- A new cache shows what lies below it. -/
theorem Simulates.open
    (simulates : Simulates keys db caches asked (flat :: flats)) :
    Simulates keys db (.opened :: caches) (false :: asked)
      (flat :: flat :: flats) := by
  have agrees : Matches keys db caches flat := by
    cases simulates with
    | bottom agrees => exact agrees
    | above agrees => exact agrees
  refine .above ⟨?_, ?_⟩ (by simp [CCoinsViewCache.opened]) (by simp)
    simulates
  · intro txid
    rw [getCoins_cons]
    exact agrees.coins txid
  · have unknown : CCoinsViewCache.opened.hashBlock = 0 := rfl
    rw [getBestBlock_cons, if_pos unknown]
    exact agrees.best

/-- One operation keeps the simulation and gives the same answer. -/
theorem Simulates.step
    {op : Op} {next : Stack} {answer : Answer}
    (recovers : keys.Recovers) (holds : Holds keys db)
    (simulates : Simulates keys db caches asked flats)
    (flushesAsked : op = .flush → asked.head? = some true) (keeps : Keeps op)
    (ran : step keys ⟨db, caches⟩ op = .ok (next, answer)) :
    Simulates keys next.db next.caches (askedAfter asked op)
        (flatStep flats op).1 ∧
      Holds keys next.db ∧ Agrees answer (flatStep flats op).2 := by
  cases simulates with
  | bottom agrees =>
      cases op with
      | «open» =>
          cases ran
          exact ⟨(Simulates.bottom agrees).open, holds, .done⟩
      | _ => cases ran
  | @above cache base isAsked askeds flat flats agrees keepable loaded below =>
      have simulates := Simulates.above agrees keepable loaded below
      cases op with
      | getCoins txid =>
          cases ran
          exact ⟨simulates.getCoins holds txid, holds,
            .coins (agrees.logical txid)⟩
      | haveCoins txid =>
          cases ran
          refine ⟨simulates.getCoins holds txid, holds, .have ?_ ?_⟩
          · intro found
            rcases agrees.coins txid with same | ⟨absent, -⟩
            · rw [← same]
              exact found
            · rw [absent] at found
              cases found
          · intro expected
            rw [← agrees.logical, logical] at expected
            exact Option.isSome_of_isSome_filter _ _ expected
      | setCoins txid coins =>
          cases ran
          exact ⟨simulates.insert txid keeps, holds, .done⟩
      | modify txid change =>
          rcases bind_eq_ok.mp ran with ⟨changed, modified, ran⟩
          cases ran
          exact ⟨simulates.modify holds keeps modified, holds, .done⟩
      | getBestBlock =>
          cases ran
          refine ⟨simulates.askBestBlock, holds, ?_⟩
          rw [agrees.best]
          exact .best
      | setBestBlock hashBlock =>
          cases ran
          have isKnown :
              (Cache.getBestBlock db
                ({ cache with hashBlock := hashBlock } :: base)).1 =
                hashBlock := by
            rw [getBestBlock_cons, if_neg keeps]
          refine ⟨.above ⟨?_, isKnown⟩ keepable (fun _ => isKnown.symm) below,
            holds, .done⟩
          intro txid
          have agreement := agrees.coins txid
          rw [getCoins_cons] at agreement ⊢
          exact agreement
      | flush =>
          cases ran
          have isTrue : isAsked = true := by simpa using flushesAsked rfl
          rw [isTrue] at simulates ⊢
          exact ⟨(simulates.flush recovers holds).1,
            (simulates.flush recovers holds).2, .done⟩
      | «open» =>
          cases ran
          exact ⟨simulates.open, holds, .done⟩
      | drop =>
          cases ran
          exact ⟨below, holds, .done⟩

/-- A run keeps the simulation and gives the same answers. -/
theorem Simulates.run
    {ops : List Op} {last : Stack} {answers : List Answer}
    (recovers : keys.Recovers) (holds : Holds keys db)
    (simulates : Simulates keys db caches asked flats)
    (flushesAsked : FlushesAsked asked ops) (keeps : ∀ op ∈ ops, Keeps op)
    (ran : run keys ⟨db, caches⟩ ops = .ok (last, answers)) :
    Simulates keys last.db last.caches (ops.foldl askedAfter asked)
        (flatRun flats ops).1 ∧
      Holds keys last.db ∧
      List.Forall₂ Agrees answers (flatRun flats ops).2 := by
  induction ops generalizing db caches asked flats answers with
  | nil =>
      cases ran
      exact ⟨simulates, holds, .nil⟩
  | cons op ops inductionHypothesis =>
      rw [Cache.run, bind_eq_ok] at ran
      rcases ran with ⟨⟨next, answer⟩, stepped, ran⟩
      rw [bind_eq_ok] at ran
      rcases ran with ⟨⟨final, later⟩, rest, ran⟩
      cases ran
      rcases simulates.step recovers holds flushesAsked.1 (keeps op (by simp))
          stepped with ⟨stillSimulates, stillHolds, agrees⟩
      rcases inductionHypothesis stillHolds stillSimulates flushesAsked.2
          (fun other member => keeps other (List.mem_cons_of_mem _ member))
          rest with ⟨atEnd, holdsAtEnd, laterAgree⟩
      exact ⟨atEnd, holdsAtEnd, .cons agrees laterAgree⟩

end Simulation

/-! ## The logical content -/

/-- The content of a flat map. -/
def Flat.content (flat : Flat) : Content where
  coins := fun txid => logical (flat.coins txid)
  best := flat.best

/-- At every level the stack shows the content of its flat map. -/
def Shows (keys : PubKeyOps) (stack : Stack) (flats : List Flat) : Prop :=
  flats.length = stack.caches.length + 1 ∧
    ∀ level flat, flats[level]? = some flat →
      content keys stack.db (stack.caches.drop level) = flat.content

/-- The operation only concerns the topmost cache. -/
def OnTop : Op → Prop
  | .flush => False
  | .open => False
  | .drop => False
  | _ => True

theorem Matches.content
    {keys : PubKeyOps} {db : CCoinsViewDB} {caches : List CCoinsViewCache}
    {flat : Flat} (agrees : Matches keys db caches flat) :
    content keys db caches = flat.content := by
  rw [Cache.content, Flat.content, Content.mk.injEq]
  constructor
  · funext txid
    exact agrees.logical txid
  · exact agrees.best

theorem Simulates.shows
    {keys : PubKeyOps} {db : CCoinsViewDB} {caches : List CCoinsViewCache}
    {asked : List Bool} {flats : List Flat}
    (simulates : Simulates keys db caches asked flats) :
    Shows keys ⟨db, caches⟩ flats := by
  induction simulates with
  | bottom agrees =>
      refine ⟨rfl, ?_⟩
      intro level flat found
      cases level with
      | zero =>
          cases found
          exact agrees.content
      | succ level => cases found
  | above agrees keepable loaded below inductionHypothesis =>
      refine ⟨by simp [inductionHypothesis.1], ?_⟩
      intro level flat found
      cases level with
      | zero =>
          cases found
          exact agrees.content
      | succ level => exact inductionHypothesis.2 level flat found

theorem simulates_flatOf (keys : PubKeyOps) (db : CCoinsViewDB) :
    Simulates keys db [] [] [flatOf keys db] :=
  .bottom ⟨fun _ => Or.inl rfl, rfl⟩

/-- Operations on the topmost cache leave the flat maps below alone. -/
theorem flatRun_onTop
    {ops : List Op} (onTop : ∀ op ∈ ops, OnTop op) (flat : Flat)
    (flats : List Flat) (later : List Op) :
    ∃ top, (flatRun (flat :: flats) (ops ++ later)).1 =
      (flatRun (top :: flats) later).1 := by
  induction ops generalizing flat with
  | nil => exact ⟨flat, rfl⟩
  | cons op ops inductionHypothesis =>
      have rest :=
        inductionHypothesis fun other member =>
          onTop other (List.mem_cons_of_mem _ member)
      have first := onTop op (by simp)
      cases op with
      | flush => cases first
      | «open» => cases first
      | drop => cases first
      | _ => exact rest _

theorem flushesAsked_of_onTop
    {ops : List Op} (onTop : ∀ op ∈ ops, OnTop op) (asked : List Bool) :
    FlushesAsked asked (ops ++ [.drop]) := by
  induction ops generalizing asked with
  | nil => exact ⟨by simp, trivial⟩
  | cons op ops inductionHypothesis =>
      refine ⟨?_, inductionHypothesis
        (fun other member => onTop other (List.mem_cons_of_mem _ member)) _⟩
      rintro rfl
      exact absurd (onTop .flush (by simp)) id

/-- What the caches promise behind a sequence of operations. -/
structure BehavesFlat
    (keys : PubKeyOps) (db : CCoinsViewDB) (ops : List Op) (last : Stack)
    (answers : List Answer) : Prop where
  levels : Shows keys last (flatRun [flatOf keys db] ops).1
  answers : List.Forall₂ Agrees answers (flatRun [flatOf keys db] ops).2
  flush :
    ∀ next answer, (ops.foldl askedAfter []).head? = some true →
      step keys last .flush = .ok (next, answer) →
        content keys next.db next.caches = content keys last.db last.caches
  discard :
    ∀ middle restored replies,
      (∀ op ∈ middle, OnTop op) → (∀ op ∈ middle, Keeps op) →
      run keys last (.open :: middle ++ [.drop]) = .ok (restored, replies) →
        content keys restored.db restored.caches =
          content keys last.db last.caches

/--
A stack of caches over a database behaves like one flat map for coins that the
database can hold and blocks with a hash.
-/
theorem cache_transparent
    (keys : PubKeyOps) (recovers : keys.Recovers)
    (db : CCoinsViewDB) (holds : Holds keys db)
    (ops : List Op) (flushesAsked : FlushesAsked [] ops)
    (keeps : ∀ op ∈ ops, Keeps op)
    (last : Stack) (answers : List Answer)
    (ran : run keys ⟨db, []⟩ ops = .ok (last, answers)) :
    BehavesFlat keys db ops last answers := by
  rcases last with ⟨lastDb, caches⟩
  rcases (simulates_flatOf keys db).run recovers holds flushesAsked keeps ran
    with ⟨simulates, holdsAtEnd, agree⟩
  generalize flatsAtEnd : (flatRun [flatOf keys db] ops).1 = flats at simulates
  rcases flats with _ | ⟨flat, flats⟩
  · exact absurd simulates.shows.1 (by simp)
  have atTop : content keys lastDb caches = flat.content :=
    simulates.shows.2 0 flat rfl
  constructor
  case levels =>
    rw [flatsAtEnd]
    exact simulates.shows
  case answers => exact agree
  case flush =>
    intro next answer asked stepped
    have keepsFlush : Keeps .flush := trivial
    have after :=
      (simulates.step recovers holdsAtEnd (fun _ => asked) keepsFlush
        stepped).1.shows.2 0 flat rfl
    exact after.trans atTop.symm
  case discard =>
    intro middle restored replies onTop keepsMiddle ranMiddle
    have keepsAll : ∀ op ∈ Op.open :: middle ++ [.drop], Keeps op := by
      intro op member
      rcases List.mem_append.mp member with early | isDrop
      · rcases List.mem_cons.mp early with rfl | inMiddle
        · trivial
        · exact keepsMiddle op inMiddle
      · rw [List.mem_singleton.mp isDrop]
        trivial
    have flushes :
        FlushesAsked (ops.foldl askedAfter [])
          (Op.open :: middle ++ [.drop]) :=
      ⟨by simp, flushesAsked_of_onTop onTop _⟩
    have after :=
      (simulates.run recovers holdsAtEnd flushes keepsAll ranMiddle).1.shows
    rcases flatRun_onTop onTop flat (flat :: flats) [.drop] with ⟨top, below⟩
    have dropped :
        (flatRun (flat :: flats) (Op.open :: middle ++ [.drop])).1 =
          flat :: flats :=
      below
    rw [dropped] at after
    exact (after.2 0 flat rfl).trans atTop.symm

/-! ## Coins that the database does not keep -/

/-- Operations on public keys for scripts without any. -/
def noKeys : PubKeyOps :=
  ⟨fun _ => false, fun _ => none⟩

theorem recovers_noKeys : noKeys.Recovers := by
  intro x y last _ _ valid
  cases valid

def emptyDb : CCoinsViewDB :=
  ⟨fun _ => none, none⟩

/-- Coins of a transaction with a given version. -/
def coinsOfVersion (nVersion : Int32) : CCoins :=
  ⟨false, [⟨50, []⟩], 1, nVersion⟩

/-- Setting coins and flushing them to the database. -/
def storeCoins (nVersion : Int32) : List Op :=
  [.open, .setBestBlock 1, .setCoins 1 (coinsOfVersion nVersion), .flush]

theorem storable_coinsOfVersion : Storable (coinsOfVersion 1) where
  version := by decide
  height := by decide
  outputs := by
    intro txout member
    right
    rw [List.mem_singleton.mp member]
    exact ⟨by decide, by decide⟩
  number := by decide
  clean := ⟨⟨50, []⟩, rfl, by decide⟩

theorem cache_transparent_storeCoins :
    ∃ last answers,
      run noKeys ⟨emptyDb, []⟩ (storeCoins 1) = .ok (last, answers) ∧
      BehavesFlat noKeys emptyDb (storeCoins 1) last answers := by
  refine ⟨_, _, rfl, ?_⟩
  refine cache_transparent noKeys recovers_noKeys emptyDb ?_ (storeCoins 1)
    ?_ ?_ _ _ rfl
  · intro txid coins found
    cases found
  · simp [storeCoins, FlushesAsked, askedAfter]
  · intro op member
    simp only [storeCoins, List.mem_cons, List.not_mem_nil, or_false] at member
    rcases member with rfl | rfl | rfl | rfl
    · trivial
    · exact show (1 : Uint256) ≠ 0 by decide
    · exact Or.inr storable_coinsOfVersion
    · trivial

/-- Setting the hash that stands for an unknown one. -/
def zeroBest : List Op :=
  [.open, .setBestBlock 1, .open, .setBestBlock 0]

/--
Coins of a transaction of version `-1` come back from the database with
version 127, and a best block that was set to zero is read from below.
-/
theorem negativeVersion_not_transparent :
    (∃ last answers,
      run noKeys ⟨emptyDb, []⟩ (storeCoins (-1)) = .ok (last, answers) ∧
      (content noKeys last.db last.caches).coins 1 =
        some (coinsOfVersion 127)) ∧
    (∃ last answers,
      run noKeys ⟨emptyDb, []⟩ zeroBest = .ok (last, answers) ∧
      (content noKeys last.db last.caches).best = 1) ∧
    ¬ ∀ (keys : PubKeyOps) (db : CCoinsViewDB) (ops : List Op) (last : Stack)
      (answers : List Answer),
      keys.Recovers → FlushesAsked [] ops →
      run keys ⟨db, []⟩ ops = .ok (last, answers) →
        Shows keys last (flatRun [flatOf keys db] ops).1 := by
  have stored :
      ∀ last answers,
        run noKeys ⟨emptyDb, []⟩ (storeCoins (-1)) = .ok (last, answers) →
          (content noKeys last.db last.caches).coins 1 =
            some (coinsOfVersion 127) := by
    intro last answers ran
    cases ran
    decide
  refine ⟨⟨_, _, rfl, stored _ _ rfl⟩, ⟨_, _, rfl, by decide⟩, ?_⟩
  intro always
  have shows :=
    (always noKeys emptyDb (storeCoins (-1)) _ _ recovers_noKeys
      (by simp [storeCoins, FlushesAsked, askedAfter]) rfl).2 0 _ rfl
  have atOne := congrArg (fun content => content.coins 1) shows
  simp only at atOne
  rw [List.drop_zero, stored _ _ rfl] at atOne
  exact absurd atOne (by decide)

end DSValue.Coins.Transparent

import DSValue.Bitcoin.StoredHeaders

/-!
# The tip after a header or a restart

The active tip is the best of the candidates, which are the headers added since
the last restart, and it is the tip of the database.  A restart keeps the tip
and leaves no candidate: the records do not hold the status that
`LoadBitcoinBlockIndex` looks for.  The first header that is added then replaces
the tip whatever its work.
-/

namespace DSValue.Bitcoin.AddedHeaders

open DSValue.Lib
open DSValue.Lib.KeepFirst
open DSValue.Core.Serialize
open DSValue.Consensus.CheckLottoResult
open DSValue.Chain.BestChain
open DSValue.Chain.Selection (findMostWorkChain_of_unfailed)
open DSValue.Bitcoin.HeaderTree
open DSValue.Bitcoin.Retargeting
open DSValue.Bitcoin.ChainManager
open DSValue.Bitcoin.HeaderChoice
open DSValue.Bitcoin.StoredHeaders

variable {env : BitcoinEnv} {clock : Clock} {manager next : CChainManager}
  {block : CBitcoinBlock} {tip newTip pprev : BitcoinIndex} {hash : Uint256}

/-! ## The invariant -/

/-- What every call and every restart keeps. -/
structure Kept
    (env : BitcoinEnv) (manager : CChainManager) (tip : BitcoinIndex) :
    Prop where
  known : KnownHeaders env manager.mapBitcoinBlockIndex
  tipFound :
    manager.mapBitcoinBlockIndex.lookup (env.getHash tip.item) = some tip
  chosen : Chosen manager tip
  candidates :
    ∀ pindex ∈ manager.chain.setBlockIndexValid,
      manager.mapBitcoinBlockIndex.lookup (env.getHash pindex.item) =
        some pindex
  stored : Stored env manager.mapBitcoinBlockIndex manager.pBitcoinblocktree tip

theorem Kept.tip_eq
    (kept : Kept env manager tip)
    (active : manager.chain.chainActive = some newTip) : newTip = tip := by
  rw [kept.chosen.active, Option.some.injEq] at active
  exact active.symm

/-- The candidates have at most the work of the tip. -/
theorem Kept.work_le
    (kept : Kept env manager tip) {pindex : BitcoinIndex}
    (member : pindex ∈ manager.chain.setBlockIndexValid) :
    nChainWork pindex ≤ nChainWork tip := by
  rcases kept.chosen.candidates with ⟨-, none⟩ | ⟨-, -, best⟩
  · rw [none] at member
    cases member
  · exact work_le_of_not_less (best pindex member)

/-- No known header has more work than a tip. -/
def Leads (manager : CChainManager) (tip : BitcoinIndex) : Prop :=
  ∀ hash pindex, manager.mapBitcoinBlockIndex.lookup hash = some pindex →
    nChainWork pindex ≤ nChainWork tip

/-! ## Adding a header -/

/-- The state after a header on a known one has been added. -/
structure Added
    (env : BitcoinEnv) (manager : CChainManager) (block : CBitcoinBlock)
    (tip : BitcoinIndex) (next : CChainManager) (newTip : BitcoinIndex) :
    Prop where
  headers :
    next.mapBitcoinBlockIndex =
      env.addToBlockIndex manager.mapBitcoinBlockIndex block
  candidates :
    next.chain.setBlockIndexValid =
      newIndex manager.mapBitcoinBlockIndex block ::
        manager.chain.setBlockIndexValid
  either :
    newTip = newIndex manager.mapBitcoinBlockIndex block ∨
      newTip = tip ∧ tip ∈ manager.chain.setBlockIndexValid

/-- The manager after its chains have been switched to a tip. -/
def switched
    (manager : CChainManager) (mostWork : BitcoinIndex) (db : CBlockTreeDB) :
    CChainManager :=
  { manager with
    chain :=
      { manager.chain with
        chainMostWork := some mostWork
        chainActive := some mostWork }
    pBitcoinblocktree := db }

theorem connectBestBlock_of_found
    {mostWork : BitcoinIndex} {db : CBlockTreeDB}
    (found :
      manager.findMostWorkChain =
        some { manager.chain with chainMostWork := some mostWork })
    (switches :
      switchTo env mostWork manager.chain.chainActive
        manager.pBitcoinblocktree = .ok (some mostWork, db)) :
    manager.connectBestBlock env = .ok (switched manager mostWork db) := by
  rw [CChainManager.connectBestBlock, found]
  simp only [switches, bind, Except.bind]
  rfl

theorem chosen_switched
    {mostWork : BitcoinIndex} (unfailed : manager.chain.failed = [])
    (choice : Choice env manager block tip mostWork) (db : CBlockTreeDB) :
    Chosen (switched (manager.addEntry env block) mostWork db) mostWork where
  active := rfl
  unfailed := unfailed
  candidates := by
    refine Or.inr ⟨rfl, ?_, choice.best⟩
    rcases choice.either with rfl | ⟨rfl, member⟩
    · exact List.mem_cons_self
    · exact List.mem_cons_of_mem _ member

/-- Adding a header keeps the invariant. -/
theorem addToBlockIndex_spec
    (kept : Kept env manager tip)
    (fresh : env.getHash block ∉ manager.mapBitcoinBlockIndex)
    (notStart : env.getHash block ≠ hashBitcoinStartBlock)
    (parent :
      manager.mapBitcoinBlockIndex.lookup block.hashPrevBlock = some pprev)
    (required : env.getNextWorkRequired (some pprev) block = .ok block.nBits) :
    ∃ next newTip, manager.addToBlockIndex env block = .ok next ∧
      Kept env next newTip ∧ Added env manager block tip next newTip := by
  have isNew :
      newIndex manager.mapBitcoinBlockIndex block = .child pprev block := by
    rw [newIndex, parent]
  have grown :
      env.addToBlockIndex manager.mapBitcoinBlockIndex block =
        insertNew manager.mapBitcoinBlockIndex (env.getHash block)
          (.child pprev block) := by
    rw [BitcoinEnv.addToBlockIndex, isNew]
  have known :
      KnownHeaders env
        (env.addToBlockIndex manager.mapBitcoinBlockIndex block) := by
    rw [grown]
    exact knownHeaders_insertNew kept.known fresh notStart parent required
  have lookups : ∀ hash pindex,
      (env.addToBlockIndex manager.mapBitcoinBlockIndex block).lookup hash =
          some pindex ↔
        manager.mapBitcoinBlockIndex.lookup hash = some pindex ∨
          hash = env.getHash block ∧ pindex = .child pprev block := by
    intro hash pindex
    rw [grown]
    exact lookup_insertNew_child fresh
  have newFound :
      (env.addToBlockIndex manager.mapBitcoinBlockIndex block).lookup
        (env.getHash block) = some (.child pprev block) :=
    (lookups _ _).mpr (Or.inr ⟨rfl, rfl⟩)
  have notOld : ∀ pindex : BitcoinIndex,
      manager.mapBitcoinBlockIndex.lookup (env.getHash pindex.item) =
          some pindex →
        pindex ≠ .child pprev block := by
    rintro pindex found rfl
    exact fresh (AList.lookup_isSome.mp (by
      rw [show env.getHash block =
        env.getHash (Lineage.child pprev block).item from rfl, found]
      rfl))
  obtain ⟨mostWork, choice⟩ :
      ∃ mostWork, Choice env manager block tip mostWork :=
    exists_choice kept.chosen (isNew ▸ notOld tip kept.tipFound)
      fun member => notOld _ (kept.candidates _ member) isNew
  have tipFound := (lookups _ _).mpr (Or.inl kept.tipFound)
  have stored := kept.stored.of_known fun hash pindex found =>
    (lookups hash pindex).mpr (Or.inl found)
  obtain ⟨db, switches, mostWorkFound, mostWorkStored⟩ :
      ∃ db, switchTo env mostWork (some tip) manager.pBitcoinblocktree =
          .ok (some mostWork, db) ∧
        (env.addToBlockIndex manager.mapBitcoinBlockIndex block).lookup
          (env.getHash mostWork.item) = some mostWork ∧
        Stored env (env.addToBlockIndex manager.mapBitcoinBlockIndex block) db
          mostWork := by
    rcases choice.either with rfl | ⟨rfl, -⟩
    · rw [isNew]
      have notBelow : ¬ .child pprev block ≤ tip := fun below =>
        notOld _ (kept.known.ancestors _ tip kept.tipFound _ below) rfl
      rcases switchTo_spec (kept.known.linked _ tip kept.tipFound)
          (known.linked _ _ newFound) (known.distinct newFound)
          manager.pBitcoinblocktree with
        ⟨fork, db, onActive, onNew, switches, written⟩
      exact ⟨db, switches, newFound,
        stored.of_written known newFound onActive onNew notBelow written⟩
    · exact ⟨_, switchTo_self mostWork _, tipFound, stored⟩
  refine ⟨switched (manager.addEntry env block) mostWork db, mostWork,
    connectBestBlock_of_found choice.found ?_, ?_,
    ⟨rfl, rfl, choice.either⟩⟩
  · rw [← switches, ← kept.chosen.active]
    rfl
  refine ⟨known, mostWorkFound,
    chosen_switched kept.chosen.unfailed choice db, ?_, mostWorkStored⟩
  intro pindex member
  rcases List.mem_cons.mp member with rfl | old
  · rw [isNew]
    exact newFound
  · exact (lookups _ _).mpr (Or.inl (kept.candidates pindex old))

/-- With candidates the tip keeps the lead; the first one has to have it. -/
theorem Added.leads
    (added : Added env manager block tip next newTip)
    (kept : Kept env manager tip) (nextKept : Kept env next newTip)
    (leads : Leads manager tip)
    (first :
      manager.chain.setBlockIndexValid = [] →
        nChainWork tip ≤
          nChainWork (newIndex manager.mapBitcoinBlockIndex block)) :
    Leads next newTip ∧ nChainWork tip ≤ nChainWork newTip := by
  have newWork :
      nChainWork (newIndex manager.mapBitcoinBlockIndex block) ≤
        nChainWork newTip := by
    apply nextKept.work_le
    rw [added.candidates]
    exact List.mem_cons_self
  have notLess : nChainWork tip ≤ nChainWork newTip := by
    rcases kept.chosen.candidates with ⟨-, none⟩ | ⟨-, member, -⟩
    · exact BitVec.le_trans (first none) newWork
    · apply nextKept.work_le
      rw [added.candidates]
      exact List.mem_cons_of_mem _ member
  refine ⟨?_, notLess⟩
  intro hash pindex found
  rw [added.headers, BitcoinEnv.addToBlockIndex, lookup_insertNew] at found
  cases old : manager.mapBitcoinBlockIndex.lookup hash with
  | some index =>
      rw [old, Option.some_or, Option.some.injEq] at found
      rw [← found]
      exact BitVec.le_trans (leads hash index old) notLess
  | none =>
      rw [old, Option.none_or] at found
      split_ifs at found
      cases found
      exact newWork

/-- Without candidates the new header is the tip. -/
theorem Added.tip_of_none
    (added : Added env manager block tip next newTip)
    (none : manager.chain.setBlockIndexValid = []) :
    newTip = newIndex manager.mapBitcoinBlockIndex block := by
  rcases added.either with isNew | ⟨-, member⟩
  · exact isNew
  · rw [none] at member
    cases member

/-- A new header with more work than the tip is the tip. -/
theorem Added.tip_of_more
    (added : Added env manager block tip next newTip)
    (nextKept : Kept env next newTip)
    (more :
      nChainWork tip <
        nChainWork (newIndex manager.mapBitcoinBlockIndex block)) :
    newTip = newIndex manager.mapBitcoinBlockIndex block := by
  rcases added.either with isNew | ⟨rfl, -⟩
  · exact isNew
  · have notMore := nextKept.work_le
      (added.candidates ▸ List.mem_cons_self)
    exact absurd notMore (BitVec.not_le.mpr more)

/-! ## Starting -/

/-- No loaded index is a candidate. -/
theorem candidates_loadedManager
    (address : BitcoinIndex → Nat) (db : CBlockTreeDB) (headers : HeaderMap) :
    (loadedManager address db headers).chain.setBlockIndexValid = [] := by
  have invalid : isValidTransactions loadedStatus = false := by decide
  simp [loadedManager, invalid]

/-- A restart keeps the stored headers and leaves no candidate. -/
structure Restarted (manager next : CChainManager) : Prop where
  headers :
    ∀ hash pindex, next.mapBitcoinBlockIndex.lookup hash = some pindex ↔
      manager.mapBitcoinBlockIndex.lookup hash = some pindex ∧
        hash ∈ manager.pBitcoinblocktree.blockIndexes
  candidates : next.chain.setBlockIndexValid = []

/-- A restart keeps the tip. -/
theorem create_of_noNull
    (kept : Kept env manager tip) (noNull : NoNull manager.pBitcoinblocktree)
    (address : BitcoinIndex → Nat) :
    ∃ next, create env address manager.pBitcoinblocktree = .ok next ∧
      Kept env next tip ∧ Restarted manager next := by
  rcases loadBlockIndexGuts_of_stored kept.known kept.stored noNull with
    ⟨headers, isLoaded, lookups⟩
  have known := knownHeaders_loaded kept.known kept.stored lookups kept.tipFound
  have tipFound := (lookups _ _).mpr ⟨kept.tipFound, kept.stored.tipSaved.mem⟩
  have candidates :=
    candidates_loadedManager address manager.pBitcoinblocktree headers
  refine ⟨loadedManager address manager.pBitcoinblocktree headers, ?_, ?_,
    lookups, candidates⟩
  · rcases known.tree.rooted with ⟨start, rooted⟩
    have startKnown : hashBitcoinStartBlock ∈ headers :=
      AList.lookup_isSome.mp (by rw [rooted]; rfl)
    simp only [create, loadBitcoinBlockIndex, isLoaded, bind, Except.bind, pure,
      Except.pure, CChainManager.initBlockIndex]
    exact if_pos startKnown
  · refine ⟨known, tipFound, ⟨?_, rfl, Or.inl ⟨rfl, candidates⟩⟩, ?_,
      stored_loaded kept.stored lookups⟩
    · simp only [loadedManager, kept.stored.best, Option.bind_some]
      exact tipFound
    · rw [candidates]
      intro pindex impossible
      cases impossible

/-- A restart that succeeds has loaded every record. -/
theorem noNull_of_create
    (kept : Kept env manager tip) {address : BitcoinIndex → Nat}
    (created : create env address manager.pBitcoinblocktree = .ok next) :
    NoNull manager.pBitcoinblocktree := by
  rw [create, loadBitcoinBlockIndex, bind_eq_ok] at created
  rcases created with ⟨loaded, isLoaded, -⟩
  rw [bind_eq_ok] at isLoaded
  rcases isLoaded with ⟨headers, read, -⟩
  exact noNull_of_loaded kept.known kept.stored read

theorem create_empty_eq (env : BitcoinEnv) (address : BitcoinIndex → Nat) :
    create env address .empty =
      if env.getHash firstBlock = hashBitcoinStartBlock then
        (loadedManager address .empty ∅).addToBlockIndex env firstBlock
      else .error .assertion := by
  have loads : loadBlockIndexGuts env .empty = .ok ∅ := rfl
  have absent : hashBitcoinStartBlock ∉
      (loadedManager address .empty ∅).mapBitcoinBlockIndex :=
    AList.notMem_empty _
  simp only [create, loadBitcoinBlockIndex, loads, bind, Except.bind, pure,
    Except.pure, CChainManager.initBlockIndex, if_neg absent]
  rfl

/-- The first start adds the start block. -/
theorem create_empty
    (isStart : env.getHash firstBlock = hashBitcoinStartBlock)
    (address : BitcoinIndex → Nat) :
    ∃ manager, create env address .empty = .ok manager ∧
      Kept env manager (.root firstBlock) ∧
      manager.mapBitcoinBlockIndex = env.addToBlockIndex ∅ firstBlock := by
  have linked : Linked env (.root firstBlock) := ⟨rfl, isStart⟩
  let entered := (loadedManager address .empty ∅).addEntry env firstBlock
  have found : entered.findMostWorkChain =
      some { entered.chain with chainMostWork := some (.root firstBlock) } :=
    findMostWorkChain_of_unfailed (less entered) rfl
  let db : CBlockTreeDB :=
    ⟨(∅ : Table Uint256 CBitcoinDiskBlockIndex).insert (env.getHash firstBlock)
      (connectedIndex env (.root firstBlock)), some (env.getHash firstBlock)⟩
  have switches :
      switchTo env (.root firstBlock) none .empty =
        .ok (some (.root firstBlock), db) :=
    switchTo_root linked .empty
  refine ⟨switched entered (.root firstBlock) db, ?_, ?_, rfl⟩
  · rw [create_empty_eq, if_pos isStart]
    exact connectBestBlock_of_found found switches
  · have saved : Saved env db (.root firstBlock) := by
      intro ancestor below
      rw [Lineage.le_root_iff.mp below]
      exact AList.lookup_insert _
    have startFound := (lookup_start isStart).mpr
      ⟨isStart, (rfl : Lineage.root firstBlock = .root firstBlock)⟩
    refine ⟨knownHeaders_start isStart, startFound,
      ⟨rfl, rfl, Or.inr ⟨rfl, List.mem_singleton_self _, ?_⟩⟩, ?_,
      ⟨?_, saved, rfl⟩⟩
    · intro pindex member
      rw [List.mem_singleton.mp member]
      exact less_eq_false_iff.mpr le_rfl
    · intro pindex member
      rw [List.mem_singleton.mp member]
      exact startFound
    · intro hash member
      rcases (AList.mem_insert _).mp member with rfl | impossible
      · exact ⟨_, startFound, saved⟩
      · exact absurd impossible (AList.notMem_empty _)

/-- The only known header of the first start is the start block. -/
theorem kept_of_create_empty
    {address : BitcoinIndex → Nat}
    (created : create env address .empty = .ok manager) :
    Kept env manager (.root firstBlock) ∧ Leads manager (.root firstBlock) := by
  by_cases isStart : env.getHash firstBlock = hashBitcoinStartBlock
  · rcases create_empty isStart address with ⟨first, isFirst, kept, headers⟩
    rw [created, Except.ok.injEq] at isFirst
    rw [← isFirst] at kept headers
    refine ⟨kept, ?_⟩
    intro hash pindex found
    rw [headers, lookup_start isStart] at found
    rw [found.2]
    exact BitVec.le_refl _
  · rw [create_empty_eq, if_neg isStart] at created
    cases created

end DSValue.Bitcoin.AddedHeaders

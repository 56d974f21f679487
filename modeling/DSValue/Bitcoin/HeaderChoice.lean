import DSValue.Bitcoin.ChainManager

/-!
# Choosing and connecting headers

A new header becomes the tip when the comparator puts it above every other
candidate, and otherwise the tip stays.  Connecting a tip writes the records
of the indexes between the fork and the tip, and nothing else.
-/

namespace DSValue.Bitcoin.HeaderChoice

open DSValue.Lib
open DSValue.Lib.KeepFirst
open DSValue.Core.Serialize
open DSValue.Consensus.CheckLottoResult
open DSValue.Chain.BestChain
open DSValue.Chain.BlockIndex (rankOf blockIndexWorkComparator_iff)
open DSValue.Chain.Selection (findMostWorkChain_of_unfailed)
open DSValue.Bitcoin.HeaderTree
open DSValue.Bitcoin.ChainManager

variable {env : BitcoinEnv} {manager : CChainManager} {block : CBitcoinBlock}
  {tip pindex first second : BitcoinIndex}

/-! ## The comparator -/

/-- `CBlockIndexWorkComparator` on the indexes of a manager. -/
abbrev less (manager : CChainManager) : BitcoinIndex → BitcoinIndex → Bool :=
  blockIndexWorkComparator manager.fields

theorem less_eq_false_iff :
    less manager first second = false ↔
      rankOf manager.fields second ≤ rankOf manager.fields first := by
  rw [← not_lt, ← blockIndexWorkComparator_iff, Bool.not_eq_true]

/-- An index that is not below another one has at least its work. -/
theorem work_le_of_not_less (notBelow : less manager first second = false) :
    nChainWork second ≤ nChainWork first := by
  by_contra more
  have greater : nChainWork first < nChainWork second := BitVec.not_le.mp more
  have asymmetric : ¬ nChainWork second < nChainWork first :=
    fun other => lt_asymm (BitVec.lt_def.mp greater) (BitVec.lt_def.mp other)
  rw [less, blockIndexWorkComparator] at notBelow
  simp only [CChainManager.fields, if_neg asymmetric, if_pos greater]
    at notBelow
  cases notBelow

/-- The greatest candidate is below none. -/
theorem not_less_greatest
    {values : List BitcoinIndex} {best : BitcoinIndex}
    (found : Ranking.greatest? (less manager) values = some best)
    (member : pindex ∈ values) : less manager best pindex = false := by
  rw [less_eq_false_iff]
  refine Ranking.rank_le_greatest? ?_ ?_ found pindex member
  · intro first second below
    exact ((blockIndexWorkComparator_iff _ _ _).mp below).le
  · intro first second notBelow
    exact less_eq_false_iff.mp notBelow

/-- A new entry does not change how the other indexes compare. -/
theorem less_addEntry
    (firstOld : first ≠ newIndex manager.mapBitcoinBlockIndex block)
    (secondOld : second ≠ newIndex manager.mapBitcoinBlockIndex block) :
    less (manager.addEntry env block) first second =
      less manager first second := by
  simp only [less, blockIndexWorkComparator, CChainManager.fields,
    CChainManager.addEntry, Function.update_of_ne firstOld,
    Function.update_of_ne secondOld]
  rfl

/-! ## The choice -/

/--
The tip is the best candidate.  Right after a restart there is no candidate and
no chain with the most work.
-/
structure Chosen (manager : CChainManager) (tip : BitcoinIndex) : Prop where
  active : manager.chain.chainActive = some tip
  unfailed : manager.chain.failed = []
  candidates :
    (manager.chain.chainMostWork = none ∧
        manager.chain.setBlockIndexValid = []) ∨
      (manager.chain.chainMostWork = some tip ∧
        tip ∈ manager.chain.setBlockIndexValid ∧
        ∀ pindex ∈ manager.chain.setBlockIndexValid,
          less manager tip pindex = false)

/-- What `FindMostWorkChain` chooses when an index has been added. -/
structure Choice
    (env : BitcoinEnv) (manager : CChainManager) (block : CBitcoinBlock)
    (tip mostWork : BitcoinIndex) : Prop where
  found :
    (manager.addEntry env block).findMostWorkChain =
      some { (manager.addEntry env block).chain with
        chainMostWork := some mostWork }
  either :
    mostWork = newIndex manager.mapBitcoinBlockIndex block ∨
      mostWork = tip ∧ tip ∈ manager.chain.setBlockIndexValid
  best :
    ∀ pindex ∈ (manager.addEntry env block).chain.setBlockIndexValid,
      less (manager.addEntry env block) mostWork pindex = false

theorem exists_choice
    (chosen : Chosen manager tip)
    (notTip : tip ≠ newIndex manager.mapBitcoinBlockIndex block)
    (fresh :
      newIndex manager.mapBitcoinBlockIndex block ∉
        manager.chain.setBlockIndexValid) :
    ∃ mostWork, Choice env manager block tip mostWork := by
  have unfailed : (manager.addEntry env block).chain.failed = [] :=
    chosen.unfailed
  have search :=
    findMostWorkChain_of_unfailed (less (manager.addEntry env block)) unfailed
  obtain ⟨best, isBest⟩ :
      ∃ best, Ranking.greatest? (less (manager.addEntry env block))
        (manager.addEntry env block).chain.setBlockIndexValid = some best := by
    rw [← Option.ne_none_iff_exists', Ne, Ranking.greatest?_eq_none]
    exact List.cons_ne_nil _ _
  rw [isBest] at search
  have member := Ranking.greatest?_mem isBest
  rcases chosen.candidates with
    ⟨noMostWork, none⟩ | ⟨mostWork, inside, onTop⟩
  · have isNew : best = newIndex manager.mapBitcoinBlockIndex block := by
      simpa [CChainManager.addEntry, ChainState.insert, none] using member
    refine ⟨best, ⟨search.trans ?_, Or.inl isNew, ?_⟩⟩
    · simp [improve, CChainManager.addEntry, ChainState.insert, noMostWork]
    · intro pindex among
      exact not_less_greatest isBest among
  have hasMostWork :
      (manager.addEntry env block).chain.chainMostWork = some tip := mostWork
  cases below : less (manager.addEntry env block) tip best with
  | false =>
      refine ⟨tip, ⟨search.trans ?_, Or.inr ⟨rfl, inside⟩, ?_⟩⟩
      · simp only [improve, hasMostWork, below, if_true]
        rw [← hasMostWork]
      · intro pindex among
        exact less_eq_false_iff.mpr
          ((less_eq_false_iff.mp (not_less_greatest isBest among)).trans
            (less_eq_false_iff.mp below))
  | true =>
      refine ⟨best, ⟨search.trans ?_, Or.inl ?_, ?_⟩⟩
      · simp [improve, hasMostWork, below]
      · -- an older candidate is not above the tip
        rcases List.mem_cons.mp member with isNew | old
        · exact isNew
        · have oldBest : best ≠ newIndex manager.mapBitcoinBlockIndex block :=
            fun same => fresh (same ▸ old)
          rw [less_addEntry notTip oldBest, onTop best old] at below
          cases below
      · intro pindex among
        exact not_less_greatest isBest among

/-! ## Linked indexes -/

/-- The headers of an index name their predecessors, down to the start block. -/
def Linked (env : BitcoinEnv) : BitcoinIndex → Prop
  | .root block =>
      block = firstBlock ∧ env.getHash block = hashBitcoinStartBlock
  | .child pprev block =>
      env.getHash block ≠ hashBitcoinStartBlock ∧
        block.hashPrevBlock = env.getHash pprev.item ∧ Linked env pprev

theorem root_le_of_linked (linked : Linked env pindex) :
    .root firstBlock ≤ pindex := by
  induction pindex with
  | root block =>
      rw [linked.1]
  | child pprev block inductionHypothesis =>
      exact (inductionHypothesis linked.2.2).trans
        (Lineage.le_child pprev block)

theorem linked_of_le
    {ancestor : BitcoinIndex} (linked : Linked env pindex)
    (below : ancestor ≤ pindex) : Linked env ancestor := by
  induction pindex with
  | root block =>
      rw [Lineage.le_root_iff.mp below]
      exact linked
  | child pprev block inductionHypothesis =>
      rcases Lineage.le_child_iff.mp below with rfl | lower
      · exact linked
      · exact inductionHypothesis linked.2.2 lower

/-- The record of a connected index names the block before the start block. -/
theorem connectedIndex_of_linked (linked : Linked env pindex) :
    connectedIndex env pindex =
      { diskIndex env pindex with
        hashPrev :=
          pindex.pprev?.elim hashBitcoinStartPreBlock
            fun pprev => env.getHash pprev.item } := by
  cases pindex with
  | root block => exact if_pos linked.2
  | child pprev block => exact if_neg linked.1

/-- The record of a connected index holds its header. -/
theorem header_connectedIndex (linked : Linked env pindex) :
    (connectedIndex env pindex).header = pindex.item := by
  rw [connectedIndex_of_linked linked]
  cases pindex with
  | root block =>
      rw [linked.1]
      rfl
  | child pprev block =>
      rcases linked with ⟨-, previous, -⟩
      simp only [CBitcoinDiskBlockIndex.header, diskIndex, Lineage.pprev?,
        Option.elim_some, ← previous]
      rfl

theorem hashPrev_connectedIndex (linked : Linked env pindex) :
    (connectedIndex env pindex).hashPrev =
      pindex.pprev?.elim hashBitcoinStartPreBlock
        fun pprev => env.getHash pprev.item := by
  rw [connectedIndex_of_linked linked]

theorem nHeight_connectedIndex (env : BitcoinEnv) (pindex : BitcoinIndex) :
    (connectedIndex env pindex).nHeight = env.nHeight pindex := by
  rw [connectedIndex]
  split_ifs <;> rfl

/-! ## Disconnecting -/

theorem disconnectTips_spec
    {mostWork : BitcoinIndex} (linked : Linked env tip)
    (rooted : .root firstBlock ≤ mostWork) :
    ∃ fork, disconnectTips env mostWork tip = .ok fork ∧
      fork ≤ tip ∧ fork ≤ mostWork := by
  induction tip with
  | root block =>
      rw [linked.1]
      exact ⟨_, if_pos rooted, le_rfl, rooted⟩
  | child pprev block inductionHypothesis =>
      rw [ChainManager.disconnectTips]
      split_ifs with inside isStart
      · exact ⟨_, rfl, le_rfl, inside⟩
      · exact absurd isStart linked.1
      · rcases inductionHypothesis linked.2.2 with
          ⟨fork, found, onActive, onMostWork⟩
        exact ⟨fork, found, onActive.trans (Lineage.le_child pprev block),
          onMostWork⟩

/-! ## Connecting -/

/-- What connecting the indexes above a fork writes. -/
structure Written
    (env : BitcoinEnv) (db : CBlockTreeDB) (fork last : BitcoinIndex)
    (next : CBlockTreeDB) : Prop where
  stored :
    ∀ pindex ≤ last, fork < pindex →
      next.blockIndexes.lookup (env.getHash pindex.item) =
        some (connectedIndex env pindex)
  kept :
    ∀ hash, (∀ pindex ≤ last, fork < pindex → env.getHash pindex.item ≠ hash) →
      next.blockIndexes.lookup hash = db.blockIndexes.lookup hash
  best :
    next.bestBlockHash =
      if fork = last then db.bestBlockHash else some (env.getHash last.item)

theorem Written.refl (db : CBlockTreeDB) (last : BitcoinIndex) :
    Written env db last last db where
  stored := fun _ below above => absurd above below.not_gt
  kept := fun _ _ => rfl
  best := (if_pos rfl).symm

/-- Different indexes on the way to a tip have different hashes. -/
def DistinctHashes (env : BitcoinEnv) (pindex : BitcoinIndex) : Prop :=
  ∀ first ≤ pindex, ∀ second ≤ pindex,
    env.getHash first.item = env.getHash second.item → first = second

theorem connectTip_of_linked
    (linked : Linked env pindex) (db : CBlockTreeDB) :
    connectTip env pindex pindex.pprev? db =
      .ok ⟨db.blockIndexes.insert (env.getHash pindex.item)
        (connectedIndex env pindex), some (env.getHash pindex.item)⟩ := by
  rw [connectTip, if_pos (Or.inr rfl)]
  simp only [CBlockTreeDB.writeBlockIndex, CBlockTreeDB.writeBestBlockHash,
    header_connectedIndex linked]
  rfl

/-- The loop of `ConnectTip` reaches the chosen tip. -/
theorem connectTips_spec
    {mostWork fork : BitcoinIndex}
    (linked : Linked env mostWork) (distinct : DistinctHashes env mostWork)
    (db : CBlockTreeDB) (left : Nat) (below : fork ≤ mostWork)
    (enough : mostWork.height < fork.height + left) :
    ∃ next, ChainManager.connectTips env mostWork left (some fork) db =
        .ok (some mostWork, next) ∧ Written env db fork mostWork next := by
  induction left generalizing fork db with
  | zero =>
      have height := Lineage.height_le_of_le below
      omega
  | succ left inductionHypothesis =>
      rw [ChainManager.connectTips]
      by_cases above : mostWork ≤ fork
      · rw [le_antisymm below above]
        exact ⟨db, by simp [contains]; rfl, Written.refl db mostWork⟩
      have strict : fork < mostWork := lt_of_le_not_ge below above
      rcases Lineage.at?_succ_of_lt strict with ⟨item, found, onChain⟩
      have connects : connectTip env (.child fork item) (some fork) db = _ :=
        connectTip_of_linked (linked_of_le linked onChain) db
      simp only [contains, above, decide_false, Bool.false_eq_true, if_false,
        nextHeight, found, connects]
      rcases inductionHypothesis
          ⟨db.blockIndexes.insert (env.getHash item)
            (connectedIndex env (.child fork item)), some (env.getHash item)⟩
          onChain (by rw [Lineage.height_child]; omega) with
        ⟨next, connected, written⟩
      have isFirst : ∀ pindex, fork < pindex → pindex ≤ mostWork →
          pindex = .child fork item ∨ .child fork item < pindex := by
        intro pindex higher onWay
        rcases Lineage.le_total_of_le onWay onChain with lower | upper
        · rcases Lineage.le_child_iff.mp lower with same | under
          · exact Or.inl same
          · exact absurd higher under.not_gt
        · rcases eq_or_lt_of_le upper with same | lower
          · exact Or.inl same.symm
          · exact Or.inr lower
      refine ⟨next, connected, ?_, ?_, ?_⟩
      · intro pindex onWay higher
        rcases isFirst pindex higher onWay with rfl | lower
        · have untouched := written.kept (env.getHash item) (by
            intro other otherOnWay otherAbove same
            have equal := distinct other otherOnWay _ onChain same
            exact otherAbove.ne equal.symm)
          rw [show (Lineage.child fork item).item = item from rfl, untouched]
          exact AList.lookup_insert _
        · exact written.stored pindex onWay lower
      · intro hash absent
        rw [written.kept hash fun pindex onWay lower =>
          absent pindex onWay ((Lineage.lt_child_iff.mpr le_rfl).trans lower)]
        exact AList.lookup_insert_ne
          (absent _ onChain (Lineage.lt_child_iff.mpr le_rfl)).symm
      · rw [written.best, if_neg strict.ne]
        split_ifs with isLast
        · rw [← isLast]
          rfl
        · rfl

/-- Without an active chain the start block is connected. -/
theorem switchTo_root (linked : Linked env (.root block)) (db : CBlockTreeDB) :
    switchTo env (.root block) none db =
      .ok (some (.root block),
        ⟨db.blockIndexes.insert (env.getHash block)
          (connectedIndex env (.root block)), some (env.getHash block)⟩) := by
  have connects : connectTip env (.root block) none db = _ :=
    connectTip_of_linked linked db
  simp only [switchTo, ChainManager.connectTips, contains, Bool.false_eq_true,
    if_false, nextHeight, Lineage.at?, if_true, connects]
  simp only [bind, Except.bind, le_refl, decide_true, if_true]
  rfl

/-- Switching to a tip connects the indexes above some common ancestor. -/
theorem switchTo_spec
    {mostWork : BitcoinIndex}
    (tipLinked : Linked env tip) (linked : Linked env mostWork)
    (distinct : DistinctHashes env mostWork) (db : CBlockTreeDB) :
    ∃ fork next, fork ≤ tip ∧ fork ≤ mostWork ∧
      switchTo env mostWork (some tip) db = .ok (some mostWork, next) ∧
      Written env db fork mostWork next := by
  rcases disconnectTips_spec tipLinked (root_le_of_linked linked) with
    ⟨fork, disconnected, onActive, onMostWork⟩
  rcases connectTips_spec linked distinct db (mostWork.height + 2) onMostWork
      (by omega) with ⟨next, connected, written⟩
  refine ⟨fork, next, onActive, onMostWork, ?_, written⟩
  simp only [switchTo, disconnected, bind, Except.bind, connected]

/-- Switching to the tip itself changes nothing. -/
theorem switchTo_self (tip : BitcoinIndex) (db : CBlockTreeDB) :
    switchTo env tip (some tip) db = .ok (some tip, db) := by
  have disconnected : ChainManager.disconnectTips env tip tip = .ok tip := by
    cases tip <;> exact if_pos le_rfl
  simp only [switchTo, disconnected, bind, Except.bind,
    ChainManager.connectTips, contains, le_refl, decide_true, if_true]
  rfl

end DSValue.Bitcoin.HeaderChoice

import DSValue.Chain.Locator
import Mathlib.Tactic.IntervalCases

/-!
# Finding the fork

A node answers a locator from the first listed block of its active chain.  A
locator of `CChain::GetLocator` ends with the genesis block, so that two nodes
always find a common block.  A locator of `GetTipBlockLocator` ends with the
start block only when the walk lands on it.
-/

namespace DSValue.Chain.ForkSearch

open DSValue.Lib
open DSValue.Lib.KeepFirst
open DSValue.Core.Serialize
open DSValue.Consensus.CheckLottoResult
open DSValue.Bitcoin.HeaderTree
open DSValue.Bitcoin.Retargeting
open DSValue.Chain.Locator

/-! ## The headers that are accepted -/

variable {env : BitcoinEnv} {headers next : HeaderMap}

theorem insertNew_of_present
    {key : Uint256} {index value : BitcoinIndex}
    (present : headers.lookup key = some index) :
    insertNew headers key value = headers := by
  rw [insertNew, if_pos]
  rw [← AList.lookup_isSome, present]
  rfl

/-- An accepted header stands on the index of its previous hash. -/
theorem accepted_cases
    {block : CBitcoinBlock} (tree : SoundTree env headers)
    (accepted : env.acceptBlock headers block = .ok next) :
    next = headers ∨
      ∃ pprev, headers.lookup block.hashPrevBlock = some pprev ∧
        next = insertNew headers (env.getHash block) (.child pprev block) := by
  by_cases isStart : env.getHash block = hashBitcoinStartBlock
  · rcases tree.rooted with ⟨start, known⟩
    rw [BitcoinEnv.acceptBlock, if_neg (not_not.mpr isStart)] at accepted
    cases accepted
    exact Or.inl (insertNew_of_present (isStart ▸ known))
  · rcases parent_of_acceptBlock accepted isStart with
      ⟨pprev, found, -, added⟩
    exact Or.inr ⟨pprev, found, added⟩

/-- The indexes of a map stand under their hashes, on indexes of the map. -/
structure Linked (env : BitcoinEnv) (headers : HeaderMap) : Prop where
  keyed :
    ∀ key index, headers.lookup key = some index →
      env.getHash index.item = key
  closed :
    ∀ key pprev item, headers.lookup key = some (.child pprev item) →
      headers.lookup (env.getHash pprev.item) = some pprev

theorem linked_insertNew
    {block : CBitcoinBlock} {pprev : BitcoinIndex} {previous : Uint256}
    (linked : Linked env headers)
    (found : headers.lookup previous = some pprev) :
    Linked env (insertNew headers (env.getHash block) (.child pprev block)) := by
  have parent : headers.lookup (env.getHash pprev.item) = some pprev := by
    rw [linked.keyed previous pprev found]
    exact found
  constructor
  · intro key index isNew
    rw [lookup_insertNew, Option.or_eq_some_iff] at isNew
    rcases isNew with old | ⟨-, added⟩
    · exact linked.keyed key index old
    · split_ifs at added with same
      cases added
      exact same
  · intro key parentIndex item isNew
    rw [lookup_insertNew, Option.or_eq_some_iff] at isNew
    rw [lookup_insertNew, Option.or_eq_some_iff]
    rcases isNew with old | ⟨-, added⟩
    · exact Or.inl (linked.closed key parentIndex item old)
    · split_ifs at added
      cases added
      exact Or.inl parent

theorem linked_of_built (built : Built env headers) : Linked env headers := by
  induction built with
  | @start block isStart =>
      have lookup : ∀ key index,
          (env.addToBlockIndex ∅ block).lookup key = some index →
            env.getHash block = key ∧ .root block = index := by
        intro key index found
        rw [BitcoinEnv.addToBlockIndex, lookup_insertNew, AList.lookup_empty,
          Option.none_or] at found
        split_ifs at found with same
        exact ⟨same, Option.some.inj found⟩
      constructor
      · intro key index found
        rcases lookup key index found with ⟨same, rfl⟩
        exact same
      · intro key pprev item found
        cases (lookup key _ found).2
  | @accept headers next block built accepted linked =>
      rcases accepted_cases (soundTree_of_built built) accepted with
        rfl | ⟨pprev, found, rfl⟩
      · exact linked
      · exact linked_insertNew linked found

/-- The indexes of a tree of headers. -/
def indexMapOfBuilt (built : Built env headers) :
    IndexMap env.getHash hashBitcoinStartBlock where
  table := headers
  keyed := (linked_of_built built).keyed
  closed := (linked_of_built built).closed
  rooted := fun key _ found => (soundTree_of_built built).sound key _ found

/-! ## Locators -/

variable {α β : Type} {hash : α → Uint256} {bitcoinHash : β → Uint256}
  {genesis : Uint256}

/-- The listed hashes are of ancestors of an index, from higher to lower. -/
def Locates (hash : α → Uint256) (base : Nat) (start : Lineage α)
    (vHave : List Uint256) : Prop :=
  ∃ indexes : List (Lineage α),
    vHave = indexes.map (fun index => hash index.item) ∧
    indexes.Pairwise
      (fun higher lower => nHeight base lower < nHeight base higher) ∧
    ∀ index ∈ indexes, index ≤ start

theorem locates_of_ladder
    {top : Lineage α} {indexes : List (Lineage α)} (base : Nat)
    (ladder : Ladder top indexes) :
    Locates hash base top (indexes.map fun index => hash index.item) := by
  refine ⟨indexes, rfl, ladder.ordered.imp ?_, ladder.below⟩
  intro higher lower less
  exact Nat.add_lt_add_left (Lineage.height_lt_of_lt less) base

/-- The first block can only be listed last. -/
theorem height_last
    {top last index : Lineage α} {earlier : List (Lineage α)}
    (ladder : Ladder top (earlier ++ [last]))
    (member : index ∈ earlier ++ [last]) (first : index.height = 0) :
    last.height = 0 := by
  rw [List.mem_append, List.mem_singleton] at member
  rcases member with isEarlier | rfl
  · have lower := (List.pairwise_append.mp ladder.ordered).2.2 index isEarlier
      last List.mem_cons_self
    have less := Lineage.height_lt_of_lt lower
    omega
  · exact first

theorem hash_of_height_eq_zero
    {map : IndexMap hash genesis} {index : Lineage α} {key : Uint256}
    (found : map.table.lookup key = some index) (first : index.height = 0) :
    hash index.item = genesis := by
  cases index with
  | root item => exact map.rooted key item found
  | child pprev item => cases first

section Search

variable [DecidableEq α] {chain other : CChain hash genesis}
  {start tip index : Lineage α} {vHave : List Uint256}

theorem lookup_of_contains (active : chain.contains 0 index = true) :
    chain.table.lookup (hash index.item) = some index := by
  rcases contains_iff.mp active with ⟨tip, isTip, below⟩
  exact chain.lookup_of_le (chain.known tip isTip) below

/-- A locator goes down to the genesis block. -/
theorem getLocator_reaches
    (known : chain.table.lookup (hash start.item) = some start) :
    ∃ vHave, chain.getLocator (some start) = some vHave ∧
      Locates hash 0 start vHave ∧ vHave.getLast? = some genesis := by
  rcases @run_ladder α hash genesis chain 0 (chain.contains 0) start
      (fun _ _ => Or.inl rfl) (fun _ active _ => contains_iff.mp active) with
    ⟨final, finished, ladder, reaches⟩
  rcases reaches rfl with ⟨earlier, last, listed, first⟩
  refine ⟨_, ?_, locates_of_ladder 0 ladder, ?_⟩
  · show locatorFrom chain 0 (chain.contains 0) start = _
    rw [locatorFrom, finished]
    rfl
  · have below := ladder.below last (by simp [listed])
    rw [listed, List.map_append, List.map_singleton, List.getLast?_append,
      List.getLast?_singleton, Option.some_or,
      hash_of_height_eq_zero (chain.lookup_of_le known below) first]

/-- No active block has the hash. -/
def Inactive (chain : CChain hash genesis) (key : Uint256) : Prop :=
  ∀ index, chain.table.lookup key = some index →
    chain.contains 0 index = false

/-- A block is the first listed one of the active chain. -/
def IsFirstActive (chain : CChain hash genesis) (vHave : List Uint256)
    (fork : Lineage α) : Prop :=
  ∃ before after, vHave = before ++ hash fork.item :: after ∧
    ∀ key ∈ before, Inactive chain key

theorem filter_eq_none_iff {key : Uint256} :
    (chain.table.lookup key).filter (chain.contains 0) = none ↔
      Inactive chain key := by
  rw [Option.filter_eq_none_iff, Inactive]
  simp only [Bool.not_eq_true]

theorem atHeight_zero (isTip : chain.tip = some tip) :
    ∃ genesisIndex, chain.atHeight 0 0 = some genesisIndex ∧
      chain.contains 0 genesisIndex = true ∧ genesisIndex.height = 0 := by
  rcases Lineage.at?_isSome (Nat.zero_le tip.height) with ⟨first, isFirst⟩
  refine ⟨first, ?_, ?_, (Lineage.at?_height isFirst).1⟩
  · rw [CChain.atHeight, if_neg (Nat.not_lt_zero 0), isTip]
    exact isFirst
  · exact contains_iff.mpr ⟨tip, isTip, Lineage.le_of_at? isFirst⟩

/-- The first listed block of the active chain, or the genesis block. -/
theorem findFork_cases (isTip : chain.tip = some tip) (vHave : List Uint256) :
    ∃ fork, chain.findFork vHave = some fork ∧
      chain.contains 0 fork = true ∧
      (IsFirstActive chain vHave fork ∨
        fork.height = 0 ∧ ∀ key ∈ vHave, Inactive chain key) := by
  rw [CChain.findFork]
  cases searched : vHave.findSome? fun key =>
      (chain.table.lookup key).filter (chain.contains 0) with
  | none =>
      rcases atHeight_zero isTip with ⟨first, isFirst, active, height⟩
      refine ⟨first, ?_, active, Or.inr ⟨height, ?_⟩⟩
      · rw [Option.none_or, isFirst]
      · intro key member
        exact filter_eq_none_iff.mp
          (List.findSome?_eq_none_iff.mp searched key member)
  | some fork =>
      rcases List.findSome?_eq_some_iff.mp searched with
        ⟨before, key, after, split, isFork, earlier⟩
      rcases Option.filter_eq_some_iff.mp isFork with ⟨found, active⟩
      refine ⟨fork, rfl, active, Or.inl ⟨before, after, ?_, ?_⟩⟩
      · rw [chain.keyed key fork found]
        exact split
      · intro other member
        exact filter_eq_none_iff.mp (earlier other member)

theorem not_inactive_genesis (isTip : chain.tip = some tip) :
    ¬ Inactive chain genesis := by
  intro inactive
  rcases atHeight_zero isTip with ⟨first, -, active, height⟩
  have found := lookup_of_contains active
  have missing :=
    inactive first (hash_of_height_eq_zero found height ▸ found)
  rw [active] at missing
  cases missing

/-- A locator that ends with the genesis block lists the fork. -/
theorem findFork_common
    (isTip : other.tip = some tip) (locates : Locates hash 0 start vHave)
    (reaches : vHave.getLast? = some genesis) :
    ∃ fork mine, other.findFork vHave = some fork ∧
      other.contains 0 fork = true ∧ IsFirstActive other vHave fork ∧
      mine ≤ start ∧ hash mine.item = hash fork.item := by
  rcases findFork_cases isTip vHave with ⟨fork, isFork, active, isFirst⟩
  have first : IsFirstActive other vHave fork := by
    refine isFirst.resolve_right ?_
    rintro ⟨-, inactive⟩
    exact not_inactive_genesis isTip
      (inactive genesis (List.mem_of_getLast? reaches))
  rcases locates with ⟨indexes, rfl, -, below⟩
  rcases id first with ⟨before, after, split, -⟩
  have listed :
      hash fork.item ∈ indexes.map fun index => hash index.item := by
    rw [split]
    exact List.mem_append_right _ List.mem_cons_self
  rcases List.mem_map.mp listed with ⟨mine, member, same⟩
  exact ⟨fork, mine, isFork, active, first, below mine member, same⟩

/-- What a locator of `CChain::GetLocator` and a search for it promise. -/
structure FindsFork (chain other : CChain hash genesis) : Prop where
  reaches :
    ∀ start, chain.table.lookup (hash start.item) = some start →
      ∃ vHave, chain.getLocator (some start) = some vHave ∧
        Locates hash 0 start vHave ∧ vHave.getLast? = some genesis
  fromTip :
    ∀ tip, chain.tip = some tip →
      chain.getLocator none = chain.getLocator (some tip)
  first :
    ∀ vHave tip, chain.tip = some tip →
      ∃ fork, chain.findFork vHave = some fork ∧
        chain.contains 0 fork = true ∧
        (IsFirstActive chain vHave fork ∨
          fork.height = 0 ∧ ∀ key ∈ vHave, Inactive chain key)
  common :
    ∀ start tip, chain.table.lookup (hash start.item) = some start →
      other.tip = some tip →
      ∃ vHave fork mine, chain.getLocator (some start) = some vHave ∧
        other.findFork vHave = some fork ∧
        other.contains 0 fork = true ∧ IsFirstActive other vHave fork ∧
        mine ≤ start ∧ hash mine.item = hash fork.item

theorem findsFork (chain other : CChain hash genesis) :
    FindsFork chain other where
  reaches := fun _ known => getLocator_reaches known
  fromTip := fun tip isTip => by
    rw [CChain.getLocator, CChain.getLocator, isTip]
    rfl
  first := fun vHave _ isTip => findFork_cases isTip vHave
  common := fun _ _ known isTip => by
    rcases getLocator_reaches known with ⟨vHave, isLocator, locates, reaches⟩
    rcases findFork_common isTip locates reaches with ⟨fork, mine, common⟩
    exact ⟨vHave, fork, mine, isLocator, common⟩

end Search

/-! ## Locators of the Bitcoin chain -/

variable {bitcoin : CChain bitcoinHash hashBitcoinStartBlock}
  {bitcoinTip : Lineage β}

theorem isHave_of_le (isTip : bitcoin.tip = some bitcoinTip) :
    ∀ index, index ≤ bitcoinTip → bitcoin.isHaveBitcoinBlock index = true := by
  intro index below
  rw [IndexMap.isHaveBitcoinBlock,
    bitcoin.lookup_of_le (bitcoin.known bitcoinTip isTip) below]
  rfl

theorem hash_eq_start_iff
    (isTip : bitcoin.tip = some bitcoinTip) {index : Lineage β}
    (below : index ≤ bitcoinTip) :
    bitcoinHash index.item = hashBitcoinStartBlock ↔ index.height = 0 := by
  have known := bitcoin.known bitcoinTip isTip
  constructor
  · intro isStart
    rcases Lineage.at?_isSome (Nat.zero_le bitcoinTip.height) with
      ⟨first, isFirst⟩
    have firstBelow := Lineage.le_of_at? isFirst
    have height := (Lineage.at?_height isFirst).1
    have same : bitcoinHash index.item = bitcoinHash first.item := by
      rw [isStart, hash_of_height_eq_zero
        (bitcoin.lookup_of_le known firstBelow) height]
    rw [bitcoin.eq_of_hash_eq known below firstBelow same]
    exact height
  · exact hash_of_height_eq_zero (bitcoin.lookup_of_le known below)

/-- A locator of the tip ends with the start block at the listed depths only. -/
theorem getTipBlockLocator_last_iff (isTip : bitcoin.tip = some bitcoinTip) :
    ∃ vHave, bitcoin.getTipBlockLocator = some vHave ∧
      Locates bitcoinHash BTC_START_HIGHT.toNat bitcoinTip vHave ∧
      (hashBitcoinStartBlock ∈ vHave ↔ IsListedDepth bitcoinTip.height) ∧
      (vHave.getLast? = some hashBitcoinStartBlock ↔
        IsListedDepth bitcoinTip.height) := by
  have found := isHave_of_le isTip
  have positive : 0 < BTC_START_HIGHT.toNat := by decide
  rcases run_ladder (fun index below => Or.inr (found index below))
      (fun _ _ below => ⟨bitcoinTip, isTip, below⟩) with
    ⟨final, finished, ladder, -⟩
  rcases run_reaches_root_iff positive isTip found with
    ⟨other, otherFinished, earlier, last, listed, isRoot⟩
  rw [finished] at otherFinished
  cases otherFinished
  have lastBelow := ladder.below last (by simp [listed])
  have isLast : (final.vHave.map fun index => bitcoinHash index.item).getLast? =
      some (bitcoinHash last.item) := by
    rw [listed, List.map_append, List.map_singleton, List.getLast?_append,
      List.getLast?_singleton, Option.some_or]
  have lastIff : bitcoinHash last.item = hashBitcoinStartBlock ↔
      IsListedDepth bitcoinTip.height :=
    (hash_eq_start_iff isTip lastBelow).trans isRoot
  refine ⟨_, ?_, locates_of_ladder _ ladder, ⟨?_, ?_⟩, ?_⟩
  · rw [CChain.getTipBlockLocator, isTip]
    simp only [locatorFrom, finished, Option.map_some]
  · intro member
    rcases List.mem_map.mp member with ⟨index, isListed, isStart⟩
    rw [hash_eq_start_iff isTip (ladder.below index isListed)] at isStart
    rw [listed] at ladder isListed
    exact isRoot.mp (height_last ladder isListed isStart)
  · intro isDepth
    rw [← lastIff.mpr isDepth]
    exact List.mem_of_getLast? isLast
  · rw [isLast, Option.some_inj, lastIff]

/--
Both locators reach the first block of their chain, the second one exactly when
the tip stands at a listed depth above it.
-/
theorem locators_reach_start
    [DecidableEq α] (chain other : CChain hash genesis)
    (bitcoin : CChain bitcoinHash hashBitcoinStartBlock) :
    FindsFork chain other ∧
    ∃ vHave, bitcoin.getTipBlockLocator = some vHave ∧
      (∀ tip, bitcoin.tip = some tip →
        Locates bitcoinHash BTC_START_HIGHT.toNat tip vHave) ∧
      (hashBitcoinStartBlock ∈ vHave ↔
        vHave.getLast? = some hashBitcoinStartBlock) ∧
      (vHave.getLast? = some hashBitcoinStartBlock ↔
        ∀ tip, bitcoin.tip = some tip → IsListedDepth tip.height) := by
  refine ⟨findsFork chain other, ?_⟩
  cases isTip : bitcoin.tip with
  | none =>
      refine ⟨[hashBitcoinStartBlock], ?_, nofun, ?_, ?_⟩
      · rw [CChain.getTipBlockLocator, isTip]
      · exact iff_of_true List.mem_cons_self rfl
      · exact iff_of_true rfl nofun
  | some tip =>
      rcases getTipBlockLocator_last_iff isTip with
        ⟨vHave, isLocator, locates, listed, last⟩
      refine ⟨vHave, isLocator, ?_, listed.trans last.symm, ?_⟩
      · rintro _ ⟨rfl⟩
        exact locates
      · rw [last]
        constructor
        · rintro isDepth _ ⟨rfl⟩
          exact isDepth
        · intro isDepth
          exact isDepth tip rfl

/-! ## A chain of twelve blocks above the start block -/

/-- The headers of a chain on the start block. -/
def chainBlock : Nat → CBitcoinBlock
  | 0 => startBlock
  | count + 1 =>
      ⟨2, nonceEnv.getHash (chainBlock count), 0,
        UInt32.ofNat (1404029522 + 600 * (count + 1)), 0x18415fd1,
        UInt32.ofNat (count + 1)⟩

def chainIndex : Nat → BitcoinIndex
  | 0 => .root startBlock
  | count + 1 => .child (chainIndex count) (chainBlock (count + 1))

def chainHeaders : Nat → HeaderMap
  | 0 => nonceEnv.addToBlockIndex ∅ startBlock
  | count + 1 =>
      nonceEnv.addToBlockIndex (chainHeaders count) (chainBlock (count + 1))



theorem getMedianTimePast_lt
    {index : BitcoinIndex} {time : Nat} (positive : 0 < time)
    (earlier : ∀ other ∈ lastTimes 11 index, other < time) :
    getMedianTimePast index < time := by
  rw [getMedianTimePast]
  cases found : (lastTimes 11 index).mergeSort[
      (lastTimes 11 index).mergeSort.length / 2]? with
  | none => exact positive
  | some median =>
      have member := List.mem_of_getElem? found
      rw [List.mem_mergeSort] at member
      exact earlier median member

theorem lookup_chainHeaders {count : Nat} (few : count < 12) :
    (chainHeaders count).lookup (chainBlock (count + 1)).hashPrevBlock =
      some (chainIndex count) := by
  interval_cases count <;> rfl

theorem required_chainIndex {count : Nat} (few : count < 12) :
    nonceEnv.getNextWorkRequired (some (chainIndex count))
      (chainBlock (count + 1)) = .ok 0x18415fd1 := by
  interval_cases count <;> rfl

theorem lastTimes_chainIndex {count : Nat} (few : count < 12) :
    ∀ other ∈ lastTimes 11 (chainIndex count),
      other < (chainBlock (count + 1)).nTime.toNat := by
  interval_cases count <;> decide

theorem accept_chainBlock {count : Nat} (few : count < 12) :
    nonceEnv.acceptBlock (chainHeaders count) (chainBlock (count + 1)) =
      .ok (chainHeaders (count + 1)) := by
  have notStart :
      nonceEnv.getHash (chainBlock (count + 1)) ≠ hashBitcoinStartBlock := by
    interval_cases count <;> decide
  have later : ¬ (chainBlock (count + 1)).nTime.toNat ≤
      getMedianTimePast (chainIndex count) := by
    have earlier := lastTimes_chainIndex few
    refine not_le.mpr (getMedianTimePast_lt ?_ earlier)
    interval_cases count <;> decide
  have checked :
      nonceEnv.checkHeader (chainHeaders count) (chainIndex count)
        (chainBlock (count + 1)) = .ok () := by
    rw [BitcoinEnv.checkHeader, required_chainIndex few]
    simp only [Except.mapError, bind, Except.bind]
    rw [if_neg (show ¬ (chainBlock (count + 1)).nBits ≠ 0x18415fd1 from
      not_not.mpr rfl), if_neg later]
    rfl
  rw [BitcoinEnv.acceptBlock, if_pos notStart]
  simp only [lookup_chainHeaders few, checked]
  rfl

theorem built_chainHeaders {count : Nat} (few : count ≤ 12) :
    Built nonceEnv (chainHeaders count) := by
  induction count with
  | zero => exact Built.start rfl
  | succ count inductionHypothesis =>
      exact Built.accept (inductionHypothesis (by omega)) (accept_chainBlock few)

/-- The active chain that ends with the twelfth block. -/
def chainOfTwelve : CChain nonceEnv.getHash hashBitcoinStartBlock where
  toIndexMap := indexMapOfBuilt (built_chainHeaders le_rfl)
  tip := some (chainIndex 12)
  known := by
    rintro _ ⟨rfl⟩
    rfl

/-- The locator of a tip twelve blocks above the start block leaves it out. -/
theorem getTipBlockLocator_misses_start :
    ∃ vHave, chainOfTwelve.getTipBlockLocator = some vHave ∧
      hashBitcoinStartBlock ∉ vHave := by
  rcases getTipBlockLocator_last_iff (show chainOfTwelve.tip = _ from rfl) with
    ⟨vHave, isLocator, -, listed, -⟩
  refine ⟨vHave, isLocator, ?_⟩
  rw [listed, isListedDepth_iff]
  rintro ⟨count, isDepth⟩
  have above : ladderDepth 11 < ladderDepth count := by
    rw [isDepth]
    decide
  have below : ladderDepth count < ladderDepth 12 := by
    rw [isDepth]
    decide
  rw [ladderDepth_strictMono.lt_iff_lt] at above below
  omega

end DSValue.Chain.ForkSearch

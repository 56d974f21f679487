import DSValue.Chain.Termination
import DSValue.Consensus.CheckBlock
import Mathlib.Data.Prod.Lex

/-!
# The block index

`AddToBlockIndex` and `CheckLastBlockState` around `ActivateBestChain`, and
the states that they reach.  What `ConnectTip` answers for a block and which
Bitcoin chain is active may differ from call to call.
-/

namespace DSValue.Chain.BlockIndex

open DSValue.Lib
open DSValue.Core.Serialize
open DSValue.Core.Header
open DSValue.Core.Transaction
open DSValue.Consensus.CheckLottoResult
open DSValue.Consensus.CheckBlock
open DSValue.Chain.BestChain
open DSValue.Chain.Selection
open DSValue.Chain.Activation
open DSValue.Chain.Passes
open DSValue.Chain.Termination

/-! ## Work and rank -/

/-- `CBlockIndex::GetBlockWork`. -/
def getBlockWork (nBits : UInt32) : Uint256 :=
  if setCompact nBits ≤ 0 then 0
  else BitVec.ofInt 256 (2 ^ 256 / (setCompact nBits + 1))

/-- `nChainWork`. -/
def nChainWork : CBlockIndex → Uint256
  | .root block => getBlockWork block.nBits
  | .child pprev block => nChainWork pprev + getBlockWork block.nBits

/-- The order of the comparator as a rank. -/
def rankOf {ι : Type} (fields : IndexFields ι) (pindex : ι) :
    ℕ ×ₗ ℕ ×ₗ ℤ ×ₗ ℤ :=
  toLex ((fields.nChainWork pindex).toNat,
    toLex (if fields.uLottoKey pindex = 0 then 0 else 1,
      toLex (-((fields.nSequenceId pindex).toNat : ℤ),
        -(fields.address pindex : ℤ))))

/-- Comparing one field before the others. -/
theorem compareField_iff
    {first second : ℕ} {rest : Bool} {later : Prop}
    (restIff : rest = true ↔ later) :
    (if second < first then false else if first < second then true else rest) =
        true ↔
      first < second ∨ first = second ∧ later := by
  rcases Nat.lt_trichotomy first second with less | rfl | greater
  · rw [if_neg (lt_asymm less), if_pos less]
    exact iff_of_true rfl (Or.inl less)
  · rw [if_neg (lt_irrefl _), if_neg (lt_irrefl _), restIff]
    simp
  · rw [if_pos greater]
    refine iff_of_false nofun ?_
    rintro (less | ⟨rfl, -⟩)
    · exact lt_asymm less greater
    · exact lt_irrefl _ greater

/-- A key of zero stands below the others. -/
theorem key_lt_iff {first second : Uint256} :
    ((if first = 0 then 0 else 1 : ℕ) < if second = 0 then 0 else 1) ↔
      first = 0 ∧ second ≠ 0 := by
  split_ifs with firstZero secondZero secondZero
  · exact iff_of_false (lt_irrefl _) fun both => both.2 secondZero
  · exact iff_of_true Nat.one_pos ⟨firstZero, secondZero⟩
  · exact iff_of_false (Nat.not_lt_zero _) fun both => firstZero both.1
  · exact iff_of_false (lt_irrefl _) fun both => firstZero both.1

theorem blockIndexWorkComparator_iff
    {ι : Type} (fields : IndexFields ι) (pa pb : ι) :
    blockIndexWorkComparator fields pa pb = true ↔
      rankOf fields pa < rankOf fields pb := by
  have keyGreater : fields.uLottoKey pa ≠ 0 ∧ fields.uLottoKey pb = 0 ↔ _ :=
    and_comm.trans key_lt_iff.symm
  have address :
      (if fields.address pa < fields.address pb then false
          else if fields.address pb < fields.address pa then true else false) =
            true ↔ fields.address pb < fields.address pa := by
    have none_left : false = true ↔ False :=
      iff_of_false Bool.false_ne_true not_false
    rw [compareField_iff none_left, and_false, or_false]
  rw [blockIndexWorkComparator]
  simp only [rankOf, Prod.Lex.toLex_lt_toLex, BitVec.lt_def,
    UInt32.lt_iff_toNat_lt, neg_lt_neg_iff, neg_inj, Nat.cast_lt, Nat.cast_inj,
    keyGreater, ← key_lt_iff]
  rw [compareField_iff (compareField_iff (compareField_iff address)),
    eq_comm (a := (fields.nSequenceId pb).toNat)]

theorem ranks_blockIndexWorkComparator
    {α : Type} (fields : IndexFields (Lineage α))
    (addresses : Function.Injective fields.address) :
    Ranks (blockIndexWorkComparator fields) (rankOf fields) := by
  refine ⟨blockIndexWorkComparator_iff fields, ?_⟩
  intro first second same
  apply addresses
  simp only [rankOf, toLex_inj, Prod.mk.injEq, neg_inj, Nat.cast_inj] at same
  exact same.2.2.2

/-! ## The state and its operations -/

/-- The block hash, and the addresses of the block indexes in memory. -/
structure Machine where
  hash9 : List UInt8 → Uint256
  address : CBlockIndex → Nat
  addresses : Function.Injective address

/-- `CBlockHeader::GetHash`. -/
def Machine.blockHash (machine : Machine) (block : CBlock) : Uint256 :=
  CBlockHeader.getHash machine.hash9 block.toCBlockHeader

structure TreeState where
  mapBlockIndex : List CBlockIndex
  nSequenceId : CBlockIndex → UInt32
  nBlockSequenceId : UInt32
  chain : ChainState CBlock

/-- What the comparator reads. -/
def TreeState.fields (machine : Machine) (state : TreeState) :
    IndexFields CBlockIndex where
  nChainWork := nChainWork
  uLottoKey := fun pindex => pindex.item.lottoHeader.uLottoKey
  nSequenceId := state.nSequenceId
  address := machine.address

/-- `CheckBTCHashValid`. -/
def checkBTCHashValid (bitcoin : BitcoinChain) (pIndex : CBlockIndex) : Bool :=
  pIndex.item.lottoHeader.mBitcoinHash.entries.all fun item =>
    !knownAndDiffers item.2 (bitcoin.getBitcoinBlockIndex item.1.toInt)

/-- The index that `AddToBlockIndex` builds for a block. -/
def newIndex (machine : Machine) (state : TreeState) (block : CBlock) :
    CBlockIndex :=
  match state.mapBlockIndex.find? fun pindex =>
      machine.blockHash pindex.item = block.hashPrevBlock with
  | none => .root block
  | some pprev => .child pprev block

/-- `AddToBlockIndex` up to the call of `ActivateBestChain`. -/
def addEntry (machine : Machine) (state : TreeState) (block : CBlock) :
    Except Failure TreeState :=
  if state.mapBlockIndex.any fun pindex =>
      machine.blockHash pindex.item = machine.blockHash block then
    throw (.reject ⟨0, .none, "duplicate", false⟩)
  else
    let pindexNew := newIndex machine state block
    pure
      { mapBlockIndex := pindexNew :: state.mapBlockIndex
        nSequenceId :=
          Function.update state.nSequenceId pindexNew state.nBlockSequenceId
        nBlockSequenceId := state.nBlockSequenceId + 1
        chain := state.chain.insert pindexNew }

/-- `ActivateBestChain` with a bound on its passes. -/
def activate
    (machine : Machine) (bitcoin : BitcoinChain)
    (connectTip : CBlockIndex → Option Reject) (fuel : Nat)
    (state : TreeState) : Except Failure TreeState :=
  match activateBestChain
      (blockIndexWorkComparator (state.fields machine))
      (checkBTCHashValid bitcoin) connectTip fuel state.chain with
  | none => throw (.fault .unfinished)
  | some chain => pure { state with chain := chain }

/-- `AddToBlockIndex`. -/
def addToBlockIndex
    (machine : Machine) (bitcoin : BitcoinChain)
    (connectTip : CBlockIndex → Option Reject) (fuel : Nat)
    (state : TreeState) (block : CBlock) : Except Failure TreeState := do
  let added ← addEntry machine state block
  activate machine bitcoin connectTip fuel added

/-! ## `CheckLastBlockState` -/

/-- The loop back over the blocks that name a Bitcoin height. -/
def skipBlocks (nBTCHeight : Int32) : CBlockIndex → Option CBlockIndex
  | .root block =>
      if block.lottoHeader.mBitcoinHash.entries.any (·.1 = nBTCHeight) then
        none
      else some (.root block)
  | .child pprev block =>
      if block.lottoHeader.mBitcoinHash.entries.any (·.1 = nBTCHeight) then
        skipBlocks nBTCHeight pprev
      else some (.child pprev block)

/-- The Bitcoin heights that `CheckLastBlockState` looks at. -/
def recentHeights (nCurBTCHeight : Int32) : List Int32 :=
  ((List.range 5).map fun offset => nCurBTCHeight - Int32.ofNat offset).filter
    fun nBTCHeight => BTC_START_HIGHT < nBTCHeight.toInt

/-- The first block of the active chain, from a height on, with a wrong hash. -/
def firstInvalid? (valid : CBlockIndex → Bool) (nHeight : Nat) :
    CBlockIndex → Option CBlockIndex
  | .root block =>
      if nHeight = 0 ∧ valid (.root block) = false then some (.root block)
      else none
  | .child pprev block =>
      match firstInvalid? valid nHeight pprev with
      | some pindexBlock => some pindexBlock
      | none =>
          if nHeight ≤ pprev.height + 1 ∧ valid (.child pprev block) = false then
            some (.child pprev block)
          else none

/-- The candidates and the position of the reverse iterator. -/
structure Sweep where
  candidates : List CBlockIndex
  it : Nat

/-- The candidates in the order of a reverse iterator. -/
def descending
    (less : CBlockIndex → CBlockIndex → Bool)
    (candidates : List CBlockIndex) : List CBlockIndex :=
  candidates.mergeSort fun first second => !less first second

/-- The iterator after the descendants of a block on one path are erased. -/
def sweepPath (pindexBlock current : CBlockIndex) (sweep : Sweep) : Sweep :=
  ⟨sweep.candidates.filter fun pindex =>
    !decide (pindexBlock < pindex ∧ pindex ≤ current), 0⟩

/-- One pass of the loop that erases the descendants of a block. -/
def sweepPass
    (less : CBlockIndex → CBlockIndex → Bool) (pindexBlock : CBlockIndex)
    (sweep : Sweep) : Option (Sweep × Bool) :=
  match (descending less sweep.candidates)[sweep.it]? with
  | none => some (sweep, true)
  | some current =>
      let bInvalidBlock := decide (pindexBlock < current)
      let swept :=
        if bInvalidBlock then sweepPath pindexBlock current sweep else sweep
      match (descending less swept.candidates)[swept.it]? with
      | none => none
      | some here =>
          if here.height < pindexBlock.height then some (swept, true)
          else if bInvalidBlock then some (swept, false)
          else some (⟨swept.candidates, swept.it + 1⟩, false)

/-- The state after the active chain is cut in front of a block. -/
def cutChain
    (machine : Machine) (state : TreeState) (tip pindexBlock : CBlockIndex) :
    Except Failure TreeState :=
  let size := state.chain.setBlockIndexValid.length
  match pindexBlock.pprev?,
      Loop.run
        (sweepPass (blockIndexWorkComparator (state.fields machine))
          pindexBlock)
        ((size + 1) * (size + 1) + 1)
        ⟨state.chain.setBlockIndexValid, 0⟩ with
  | none, _ => throw (.fault .assertion)
  | some _, none => throw (.fault .outOfRange)
  | some pprev, some swept =>
      pure
        { state with
          chain :=
            { state.chain with
              setBlockIndexValid := swept.candidates
              chainMostWork := some pprev
              chainActive := disconnectTips pprev tip } }

/-- `CheckLastBlockState`. -/
def checkLastBlockState
    (machine : Machine) (bitcoin : BitcoinChain) (nCurBTCHeight : Int32)
    (state : TreeState) : Except Failure TreeState :=
  if nCurBTCHeight.toInt ≤ BTC_START_HIGHT then pure state
  else
    match state.chain.chainActive with
    | none => throw (.fault .outOfRange)
    | some tip =>
        match (recentHeights nCurBTCHeight).foldlM
            (fun pindexBlock nBTCHeight => skipBlocks nBTCHeight pindexBlock)
            tip with
        | none => throw (.fault .outOfRange)
        | some start =>
            match firstInvalid? (checkBTCHashValid bitcoin) start.height tip with
            | none => pure state
            | some pindexBlock => cutChain machine state tip pindexBlock

/-! ## Reachable states -/

/-- The state after `InitBlockIndex` has added the genesis block. -/
def genesisState (block : CBlock) : TreeState where
  mapBlockIndex := [.root block]
  nSequenceId := fun _ => 1
  nBlockSequenceId := 2
  chain :=
    { chainActive := some (.root block)
      chainMostWork := some (.root block)
      setBlockIndexValid := [.root block]
      failed := [] }

/-- The parent of a block is known, which `AcceptBlock` checks. -/
def ParentKnown (machine : Machine) (state : TreeState) (block : CBlock) :
    Prop :=
  ∃ pprev ∈ state.mapBlockIndex,
    machine.blockHash pprev.item = block.hashPrevBlock

/--
The states that `AddToBlockIndex`, `ActivateBestChain` and
`CheckLastBlockState` reach, with any outcomes and any Bitcoin chain in each
call.
-/
inductive Reachable (machine : Machine) : TreeState → Prop where
  | genesis (block : CBlock) : Reachable machine (genesisState block)
  | add {state next : TreeState} {block : CBlock} {fuel : Nat}
      (bitcoin : BitcoinChain) (outcomes : Outcomes CBlock)
      (before : Reachable machine state)
      (parent : ParentKnown machine state block)
      (result :
        addToBlockIndex machine bitcoin outcomes.connectTip fuel state block =
          .ok next) :
      Reachable machine next
  | activate {state next : TreeState} {fuel : Nat}
      (bitcoin : BitcoinChain) (outcomes : Outcomes CBlock)
      (before : Reachable machine state)
      (result :
        activate machine bitcoin outcomes.connectTip fuel state = .ok next) :
      Reachable machine next
  | checkLastBlockState {state next : TreeState} {nCurBTCHeight : Int32}
      (bitcoin : BitcoinChain) (before : Reachable machine state)
      (result :
        checkLastBlockState machine bitcoin nCurBTCHeight state = .ok next) :
      Reachable machine next

theorem Reachable.added
    {machine : Machine} {state added next : TreeState} {block : CBlock}
    {bitcoin : BitcoinChain} {outcomes : Outcomes CBlock} {fuel : Nat}
    (before : Reachable machine state)
    (parent : ParentKnown machine state block)
    (entry : addEntry machine state block = .ok added)
    (activated :
      BlockIndex.activate machine bitcoin outcomes.connectTip fuel added =
        .ok next) :
    Reachable machine next := by
  have result :
      addToBlockIndex machine bitcoin outcomes.connectTip fuel state block =
        .ok next := by
    rw [addToBlockIndex, entry]
    exact activated
  exact .add bitcoin outcomes before parent result

/-- The states in which `ActivateBestChain` is called. -/
inductive AtCall (machine : Machine) : TreeState → Prop where
  | again {state : TreeState} (before : Reachable machine state) :
      AtCall machine state
  | added {state next : TreeState} {block : CBlock}
      (before : Reachable machine state)
      (parent : ParentKnown machine state block)
      (result : addEntry machine state block = .ok next) :
      AtCall machine next

/-- The indexes of the map form a tree, and the chains lie in it. -/
structure Kept (genesis : CBlockIndex) (state : TreeState) : Prop where
  tree : Tree (· ∈ state.mapBlockIndex) genesis
  sound : Sound (· ∈ state.mapBlockIndex) state.chain

theorem kept_genesis (block : CBlock) :
    Kept (.root block) (genesisState block) := by
  have only :
      ∀ pindex, pindex ∈ (genesisState block).mapBlockIndex →
        pindex = .root block :=
    fun pindex member => List.mem_singleton.mp member
  constructor
  · constructor
    · intro pindex ancestor member below
      rw [only pindex member, Lineage.le_root_iff] at below
      rw [below]
      exact List.mem_singleton_self _
    · intro pindex member
      rw [only pindex member]
  · have clean : ∀ pindex, Free (genesisState block).chain pindex := by
      intro pindex ancestor _ failed
      cases failed
    constructor
    · refine ⟨?_, fun tip _ => clean tip⟩
      intro pindex _ failed
      cases failed
    · exact ⟨.root block, rfl, List.mem_singleton_self _⟩
    · exact fun pindex member => member
    · intro pindex failed
      cases failed
    · rintro _ ⟨⟩
      exact ⟨List.mem_singleton_self _, clean _⟩

/-- What `AddToBlockIndex` does to the map and to the candidates. -/
theorem addEntry_cases
    {machine : Machine} {state next : TreeState} {block : CBlock}
    (parent : ParentKnown machine state block)
    (result : addEntry machine state block = .ok next) :
    ∃ pprev ∈ state.mapBlockIndex,
      .child pprev block ∉ state.mapBlockIndex ∧
      next.mapBlockIndex = .child pprev block :: state.mapBlockIndex ∧
      next.chain = state.chain.insert (.child pprev block) := by
  rw [addEntry] at result
  split_ifs at result with duplicate
  cases result
  rcases parent with ⟨known, isKnown, hash⟩
  obtain ⟨pprev, found, isPprev⟩ :
      ∃ pprev, newIndex machine state block = .child pprev block ∧
        pprev ∈ state.mapBlockIndex := by
    rw [newIndex]
    cases search : state.mapBlockIndex.find? fun pindex =>
        decide (machine.blockHash pindex.item = block.hashPrevBlock) with
    | none =>
        have absent := List.find?_eq_none.mp search known isKnown
        simp [hash] at absent
    | some pprev =>
        exact ⟨pprev, rfl, List.mem_of_find?_eq_some search⟩
  have fresh : .child pprev block ∉ state.mapBlockIndex := by
    intro member
    apply duplicate
    exact List.any_eq_true.mpr ⟨_, member, by simp [Lineage.item]⟩
  rw [found]
  exact ⟨pprev, isPprev, fresh, rfl, rfl⟩

/-- A tree stays one when a child of one of its nodes is added. -/
theorem tree_cons
    {known : List CBlockIndex} {genesis pprev : CBlockIndex} {block : CBlock}
    (tree : Tree (· ∈ known) genesis) (isKnown : pprev ∈ known) :
    Tree (· ∈ Lineage.child pprev block :: known) genesis := by
  constructor
  · intro pindex ancestor member below
    rcases List.mem_cons.mp member with rfl | earlier
    · rcases Lineage.le_child_iff.mp below with rfl | lower
      · exact List.mem_cons_self
      · exact List.mem_cons_of_mem _
          (tree.closed pprev ancestor isKnown lower)
    · exact List.mem_cons_of_mem _
        (tree.closed pindex ancestor earlier below)
  · intro pindex member
    rcases List.mem_cons.mp member with rfl | earlier
    · exact (tree.rooted pprev isKnown).trans (Lineage.le_child pprev block)
    · exact tree.rooted pindex earlier

theorem kept_addEntry
    {machine : Machine} {state next : TreeState} {genesis : CBlockIndex}
    {block : CBlock} (kept : Kept genesis state)
    (parent : ParentKnown machine state block)
    (result : addEntry machine state block = .ok next) :
    Kept genesis next := by
  rcases addEntry_cases parent result with
    ⟨pprev, isPprev, fresh, isMap, isChain⟩
  have sound := kept.sound
  constructor
  · rw [isMap]
    exact tree_cons kept.tree isPprev
  · rw [isMap, isChain]
    constructor
    · refine ⟨?_, sound.apart.active⟩
      intro pindex member failed
      rcases List.mem_cons.mp member with rfl | earlier
      · exact fresh (sound.failures _ failed)
      · exact sound.apart.candidates pindex earlier failed
    · rcases sound.active with ⟨tip, isTip, isKnownTip⟩
      exact ⟨tip, isTip, List.mem_cons_of_mem _ isKnownTip⟩
    · intro pindex member
      rcases List.mem_cons.mp member with rfl | earlier
      · exact List.mem_cons_self
      · exact List.mem_cons_of_mem _ (sound.candidates pindex earlier)
    · intro pindex failed
      exact List.mem_cons_of_mem _ (sound.failures pindex failed)
    · intro tip isTip
      rcases sound.mostWork tip isTip with ⟨isKnownTip, free⟩
      exact ⟨List.mem_cons_of_mem _ isKnownTip, free⟩

theorem kept_activate
    {machine : Machine} {bitcoin : BitcoinChain} {outcomes : Outcomes CBlock}
    {state next : TreeState} {genesis : CBlockIndex} {fuel : Nat}
    (kept : Kept genesis state)
    (result :
      activate machine bitcoin outcomes.connectTip fuel state = .ok next) :
    Kept genesis next := by
  rw [activate] at result
  split at result
  · cases result
  next chain activated =>
    cases result
    exact ⟨kept.tree, kept.sound.activateBestChain kept.tree activated⟩

theorem sweepPath_sublist (pindexBlock current : CBlockIndex) (sweep : Sweep) :
    (sweepPath pindexBlock current sweep).candidates.Sublist
      sweep.candidates :=
  List.filter_sublist

theorem mem_sweepPath
    {pindexBlock current other : CBlockIndex} {sweep : Sweep} :
    other ∈ (sweepPath pindexBlock current sweep).candidates ↔
      other ∈ sweep.candidates ∧
        ¬ (pindexBlock < other ∧ other ≤ current) := by
  simp [sweepPath, imp_iff_not_or]

theorem length_sweepPath_lt
    {pindexBlock current : CBlockIndex} {sweep : Sweep}
    (member : current ∈ sweep.candidates) (above : pindexBlock < current) :
    (sweepPath pindexBlock current sweep).candidates.length <
      sweep.candidates.length := by
  refine lt_of_le_of_ne (sweepPath_sublist _ _ _).length_le ?_
  intro same
  have whole := (sweepPath_sublist _ _ _).eq_of_length same
  rw [← whole] at member
  exact (mem_sweepPath.mp member).2 ⟨above, le_rfl⟩

theorem sweepPass_sublist
    {less : CBlockIndex → CBlockIndex → Bool} {pindexBlock : CBlockIndex}
    {sweep next : Sweep} {done : Bool}
    (result : sweepPass less pindexBlock sweep = some (next, done)) :
    next.candidates.Sublist sweep.candidates := by
  rw [sweepPass] at result
  split at result
  · cases result
    exact List.Sublist.refl _
  next current _ =>
    have swept := sweepPath_sublist pindexBlock current sweep
    cases erase : decide (pindexBlock < current) with
    | true =>
        simp only [erase, if_true] at result
        split at result
        · cases result
        · split at result <;> cases result <;> exact swept
    | false =>
        simp only [erase, Bool.false_eq_true, if_false] at result
        split at result
        · cases result
        · split at result <;> cases result <;> exact List.Sublist.refl _

theorem firstInvalid?_spec
    {valid : CBlockIndex → Bool} {nHeight : Nat} {tip pindexBlock : CBlockIndex}
    (found : firstInvalid? valid nHeight tip = some pindexBlock) :
    pindexBlock ≤ tip ∧ valid pindexBlock = false := by
  induction tip with
  | root block =>
      rw [firstInvalid?] at found
      split_ifs at found with invalid
      cases found
      exact ⟨le_rfl, invalid.2⟩
  | child pprev block inductionHypothesis =>
      rw [firstInvalid?] at found
      split at found
      next earlier isEarlier =>
        cases found
        rcases inductionHypothesis isEarlier with ⟨below, invalid⟩
        exact ⟨below.trans (Lineage.le_child pprev block), invalid⟩
      next =>
        split_ifs at found with invalid
        cases found
        exact ⟨le_rfl, invalid.2⟩

/-- What `CheckLastBlockState` may do to a state. -/
theorem checkLastBlockState_cases
    {machine : Machine} {bitcoin : BitcoinChain} {nCurBTCHeight : Int32}
    {state next : TreeState}
    (result :
      checkLastBlockState machine bitcoin nCurBTCHeight state = .ok next) :
    next = state ∨
      ∃ tip pindexBlock pprev candidates,
        state.chain.chainActive = some tip ∧ pindexBlock ≤ tip ∧
        checkBTCHashValid bitcoin pindexBlock = false ∧
        pindexBlock.pprev? = some pprev ∧
        candidates.Sublist state.chain.setBlockIndexValid ∧
        next =
          { state with
            chain :=
              { state.chain with
                setBlockIndexValid := candidates
                chainMostWork := some pprev
                chainActive := disconnectTips pprev tip } } := by
  rw [checkLastBlockState] at result
  split_ifs at result with early
  · cases result
    exact Or.inl rfl
  split at result
  · cases result
  next tip isTip =>
    split at result
    · cases result
    next start _ =>
      split at result
      · cases result
        exact Or.inl rfl
      next pindexBlock found =>
        rcases firstInvalid?_spec found with ⟨below, invalid⟩
        rw [cutChain] at result
        split at result
        · cases result
        · cases result
        next pprev swept parent ended =>
          cases result
          refine Or.inr ⟨tip, pindexBlock, pprev, swept.candidates, isTip,
            below, invalid, parent, ?_, rfl⟩
          apply (Loop.ends_of_run ended).invariant
            (fun sweep =>
              sweep.candidates.Sublist state.chain.setBlockIndexValid)
            (List.Sublist.refl _)
          · exact fun before after shorter pass =>
              (sweepPass_sublist pass).trans shorter
          · exact fun before after shorter pass =>
              (sweepPass_sublist pass).trans shorter

theorem kept_checkLastBlockState
    {machine : Machine} {bitcoin : BitcoinChain} {nCurBTCHeight : Int32}
    {state next : TreeState} {genesis : CBlockIndex}
    (kept : Kept genesis state)
    (result :
      checkLastBlockState machine bitcoin nCurBTCHeight state = .ok next) :
    Kept genesis next := by
  rcases checkLastBlockState_cases result with
    rfl | ⟨tip, pindexBlock, pprev, candidates, isTip, below, -, parent,
      shorter, rfl⟩
  · exact kept
  · have sound := kept.sound
    rcases Lineage.eq_child_of_pprev? parent with ⟨item, rfl⟩
    have pprevBelow : pprev ≤ tip := (Lineage.le_child pprev item).trans below
    have tipKnown : tip ∈ state.mapBlockIndex := by
      rcases sound.active with ⟨other, isOther, isKnown⟩
      rw [isTip] at isOther
      cases isOther
      exact isKnown
    have pprevKnown := kept.tree.closed tip pprev tipKnown pprevBelow
    have free : Free state.chain pprev := by
      intro ancestor lower
      exact sound.apart.active tip isTip ancestor (lower.trans pprevBelow)
    rcases disconnectTips_spec (kept.tree.rooted tip tipKnown)
        (kept.tree.rooted pprev pprevKnown) with
      ⟨fork, disconnected, -, lower, greatest⟩
    have isPprev : fork = pprev :=
      le_antisymm lower (greatest pprev pprevBelow le_rfl)
    rw [isPprev] at disconnected
    refine ⟨kept.tree, ?_⟩
    constructor
    · refine ⟨?_, ?_⟩
      · intro pindex member
        exact sound.apart.candidates pindex (shorter.subset member)
      · intro other isOther
        have same : some pprev = some other :=
          disconnected.symm.trans isOther
        cases same
        exact free
    · exact ⟨pprev, disconnected, pprevKnown⟩
    · intro pindex member
      exact sound.candidates pindex (shorter.subset member)
    · exact sound.failures
    · rintro _ ⟨⟩
      exact ⟨pprevKnown, free⟩

/-- Every reachable state is sound. -/
theorem Reachable.kept
    {machine : Machine} {state : TreeState}
    (reachable : Reachable machine state) :
    ∃ genesis, Kept genesis state := by
  induction reachable with
  | genesis block => exact ⟨_, kept_genesis block⟩
  | add bitcoin outcomes before parent result inductionHypothesis =>
      rcases inductionHypothesis with ⟨genesis, kept⟩
      rw [addToBlockIndex, bind_eq_ok] at result
      rcases result with ⟨added, entry, activated⟩
      exact ⟨genesis, kept_activate (kept_addEntry kept parent entry)
        activated⟩
  | activate bitcoin outcomes before result inductionHypothesis =>
      rcases inductionHypothesis with ⟨genesis, kept⟩
      exact ⟨genesis, kept_activate kept result⟩
  | checkLastBlockState bitcoin before result inductionHypothesis =>
      rcases inductionHypothesis with ⟨genesis, kept⟩
      exact ⟨genesis, kept_checkLastBlockState kept result⟩

theorem AtCall.kept
    {machine : Machine} {state : TreeState} (atCall : AtCall machine state) :
    ∃ genesis, Kept genesis state := by
  cases atCall with
  | again before => exact before.kept
  | added before parent result =>
      rcases before.kept with ⟨genesis, kept⟩
      exact ⟨genesis, kept_addEntry kept parent result⟩

end DSValue.Chain.BlockIndex

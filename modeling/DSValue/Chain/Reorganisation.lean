import DSValue.Chain.BlockIndex
import DSValue.Consensus.QuietChain
import Mathlib.Data.Countable.Basic
import Mathlib.Logic.Equiv.List

/-!
# Reorganisations

Every call of `ActivateBestChain` with a decisive candidate returns, and the
active chain keeps its work when the decisive candidate has it.  A dirty block
with a known descendant makes the call run forever, and a block that waits for
lottery data leaves the node on a weaker chain.
-/

namespace DSValue.Chain.Reorganisation

open DSValue.Lib
open DSValue.Core.Serialize
open DSValue.Core.Header
open DSValue.Core.Transaction
open DSValue.Consensus.CheckLottoResult
open DSValue.Consensus.CheckBlock
open DSValue.Consensus.ConnectBlock
open DSValue.Consensus.QuietChain
open DSValue.Chain.BestChain
open DSValue.Chain.Selection
open DSValue.Chain.Activation
open DSValue.Chain.Passes
open DSValue.Chain.Termination
open DSValue.Chain.BlockIndex

/-! ## Calls of the loop -/

section Calls

variable {machine : Machine} {state next : TreeState}
  {bitcoin : BitcoinChain} {outcomes : Outcomes CBlock}
  {tip pindex : CBlockIndex}

theorem activate_eq_ok
    {fuel : Nat} :
    activate machine bitcoin outcomes.connectTip fuel state = .ok next ↔
      ∃ chain,
        Loop.run
            (body (blockIndexWorkComparator (state.fields machine))
              (checkBTCHashValid bitcoin) outcomes)
            fuel state.chain = some chain ∧
          next = { state with chain := chain } := by
  rw [activate, activateBestChain, body]
  split
  next unfinished =>
    simp [unfinished, throw, throwThe, MonadExceptOf.throw]
  next chain finished =>
    simp only [finished, Option.some.injEq, exists_eq_left']
    constructor
    · intro result
      cases result
      rfl
    · rintro rfl
      rfl

/-- The loop of a call with a decisive candidate ends. -/
theorem ends_of_atCall
    (atCall : AtCall machine state)
    (isActive : state.chain.chainActive = some tip)
    (decisive :
      Decisive (checkBTCHashValid bitcoin) (rankOf (state.fields machine))
        outcomes state.chain tip pindex) :
    ∃ final last,
      Loop.Ends
          (body (blockIndexWorkComparator (state.fields machine))
            (checkBTCHashValid bitcoin) outcomes)
          state.chain final ∧
        final.chainActive = some last ∧
        EndsWell (rankOf (state.fields machine)) outcomes tip pindex last := by
  rcases atCall.kept with ⟨genesis, kept⟩
  exact ends_of_decisive
    (ranks_blockIndexWorkComparator (state.fields machine) machine.addresses)
    kept.tree kept.sound isActive decisive

end Calls

/-! ## Addresses

The block indexes are countable, so there is a machine for every hash function.
-/

instance countableInt32 : Countable Int32 :=
  Function.Injective.countable (f := Int32.toInt) fun _ _ =>
    Int32.toInt_inj.mp

instance countableInt64 : Countable Int64 :=
  Function.Injective.countable (f := Int64.toInt) fun _ _ =>
    Int64.toInt_inj.mp

instance countableUInt32 : Countable UInt32 :=
  Function.Injective.countable (f := UInt32.toNat) fun _ _ =>
    UInt32.toNat_inj.mp

instance countableUInt8 : Countable UInt8 :=
  Function.Injective.countable (f := UInt8.toNat) fun _ _ =>
    UInt8.toNat_inj.mp

instance countableUint256 : Countable Uint256 :=
  Function.Injective.countable (f := BitVec.toNat) fun _ _ =>
    BitVec.eq_of_toNat_eq

instance countableOrderedMap
    {κ ν : Type} [LT κ] [Countable κ] [Countable ν] :
    Countable (OrderedMap κ ν) :=
  Function.Injective.countable (f := OrderedMap.entries) fun _ _ =>
    OrderedMap.ext

instance countableCTxIn : Countable CTxIn := by
  apply Function.Injective.countable (f := fun txin : CTxIn =>
    (txin.prevout.hash, txin.prevout.n, txin.scriptSig, txin.nSequence))
  rintro ⟨⟨⟩⟩ ⟨⟨⟩⟩ same
  cases same
  rfl

instance countableCTxOut : Countable CTxOut := by
  apply Function.Injective.countable (f := fun txout : CTxOut =>
    (txout.nValue, txout.scriptPubKey))
  rintro ⟨⟩ ⟨⟩ same
  cases same
  rfl

instance countableCTransaction : Countable CTransaction := by
  apply Function.Injective.countable (f := fun tx : CTransaction =>
    (tx.nVersion, tx.vin, tx.vout, tx.nLockTime))
  rintro ⟨⟩ ⟨⟩ same
  cases same
  rfl

instance countableCLottoHeader : Countable CLottoHeader := by
  apply Function.Injective.countable (f := fun header : CLottoHeader =>
    (header.nVersion, header.mBitcoinHash, header.llPool, header.nLottoID,
      header.uLottoKey))
  rintro ⟨⟩ ⟨⟩ same
  cases same
  rfl

instance countableCBlock : Countable CBlock := by
  apply Function.Injective.countable (f := fun block : CBlock =>
    (block.nVersion, block.hashPrevBlock, block.hashMerkleRoot, block.nTime,
      block.nBits, block.nNonce, block.lottoHeader, block.vtx))
  rintro ⟨⟨⟩⟩ ⟨⟨⟩⟩ same
  cases same
  rfl

/-- A machine with the given hash function. -/
noncomputable def machineOf (hash9 : List UInt8 → Uint256) : Machine where
  hash9 := hash9
  address := (exists_injective_nat CBlockIndex).choose
  addresses := (exists_injective_nat CBlockIndex).choose_spec

theorem blockHash_machineOf (block : CBlock) :
    (machineOf nonceHash).blockHash block = nonceOf block :=
  getHash_nonceHash block.toCBlockHeader

/-! ## Runs -/

/-- The comparator, which does not look at the addresses of one index. -/
def distinctComparator
    (fields : IndexFields CBlockIndex) (pa pb : CBlockIndex) : Bool :=
  if pa = pb then false else blockIndexWorkComparator fields pa pb

theorem blockIndexWorkComparator_eq_distinct
    (fields : IndexFields CBlockIndex) :
    blockIndexWorkComparator fields = distinctComparator fields := by
  funext pa pb
  rw [distinctComparator]
  split_ifs with same
  · rw [same, Bool.eq_false_iff, Ne, blockIndexWorkComparator_iff]
    exact lt_irrefl _
  · rfl

/-- A block with the given hash on the block with the given hash. -/
def plainBlock (prev nonce : Nat) : CBlock :=
  { genesisBlock with
    hashPrevBlock := BitVec.ofNat 256 prev
    nNonce := UInt32.ofNat nonce }

/-- The outcomes in which only one block, given by its nonce, is rejected. -/
def rejectOne (nonce : Nat) (reject : Reject)
    (kind : ∃ kind, kindOf reject = some kind) : Outcomes CBlock where
  connectTip := fun pindex =>
    if pindex.item.nNonce = UInt32.ofNat nonce then some reject else none
  kinds := by
    intro pindex other rejected
    split_ifs at rejected
    cases rejected
    exact kind

def genesisIndex : CBlockIndex := .root genesisBlock

/-- The state with some indexes on the genesis block, the newest first. -/
def stateOf
    (added : List CBlockIndex) (chain : ChainState CBlock) : TreeState where
  mapBlockIndex := added ++ [genesisIndex]
  nSequenceId :=
    added.foldr
      (fun pindex sequence =>
        Function.update sequence pindex
          (UInt32.ofNat (pindex.item.nNonce.toNat + 1)))
      (fun _ => 1)
  nBlockSequenceId := UInt32.ofNat (added.length + 2)
  chain := chain

/-- Block 1 names a wrong Bitcoin hash. -/
def dirtyOutcomes : Outcomes CBlock :=
  rejectOne 1 ⟨0, .dirtyBlock, "bad-btchash", true⟩ ⟨.dirtyBlock, rfl⟩

def firstIndex : CBlockIndex := .child genesisIndex (plainBlock 0 1)

/-- The state when `ActivateBestChain` is called for block 1. -/
def firstAdded : TreeState :=
  stateOf [firstIndex]
    { chainActive := some genesisIndex
      chainMostWork := some genesisIndex
      setBlockIndexValid := [firstIndex, genesisIndex]
      failed := [] }

theorem addEntry_first :
    addEntry (machineOf nonceHash) (genesisState genesisBlock)
      (plainBlock 0 1) = .ok firstAdded := by
  simp only [addEntry, newIndex, blockHash_machineOf]
  rfl

theorem parentKnown_first :
    ParentKnown (machineOf nonceHash) (genesisState genesisBlock)
      (plainBlock 0 1) := by
  refine ⟨genesisIndex, List.mem_singleton_self _, ?_⟩
  rw [blockHash_machineOf]
  rfl

theorem atCall_firstAdded : AtCall (machineOf nonceHash) firstAdded :=
  .added (.genesis genesisBlock) parentKnown_first addEntry_first

/-- The state after block 1 has turned out dirty. -/
def firstDirty : TreeState :=
  stateOf [firstIndex]
    { chainActive := some genesisIndex
      chainMostWork := some genesisIndex
      setBlockIndexValid := [genesisIndex]
      failed := [] }

theorem activate_firstDirty :
    activate (machineOf nonceHash) startChain dirtyOutcomes.connectTip 2
      firstAdded = .ok firstDirty := by
  refine activate_eq_ok.mpr ⟨firstDirty.chain, ?_, rfl⟩
  rw [blockIndexWorkComparator_eq_distinct]
  decide

/-- The state when `ActivateBestChain` is called for a block on block 1. -/
def secondAdded : TreeState :=
  stateOf [.child firstIndex (plainBlock 1 2), firstIndex]
    { chainActive := some genesisIndex
      chainMostWork := some genesisIndex
      setBlockIndexValid := [.child firstIndex (plainBlock 1 2), genesisIndex]
      failed := [] }

theorem addEntry_second :
    addEntry (machineOf nonceHash) firstDirty (plainBlock 1 2) =
      .ok secondAdded := by
  simp only [addEntry, newIndex, blockHash_machineOf]
  rfl

theorem reachable_firstDirty : Reachable (machineOf nonceHash) firstDirty :=
  (Reachable.genesis genesisBlock).added parentKnown_first addEntry_first
    activate_firstDirty

theorem atCall_secondAdded : AtCall (machineOf nonceHash) secondAdded := by
  refine .added reachable_firstDirty ⟨firstIndex, ?_, ?_⟩ addEntry_second
  · exact List.mem_cons_self
  · rw [blockHash_machineOf]
    rfl

/-! ## Calls that return -/

theorem decisive_firstAdded :
    Decisive (checkBTCHashValid startChain)
      (rankOf (firstAdded.fields (machineOf nonceHash))) dirtyOutcomes
      firstAdded.chain genesisIndex genesisIndex := by
  have genesisFree : Free firstAdded.chain genesisIndex := by
    intro ancestor _ failed
    cases failed
  constructor
  · refine Or.inl ⟨?_, by decide, genesisFree⟩
    exact List.mem_cons_of_mem _ List.mem_cons_self
  · exact Or.inl fun ancestor below => Or.inl below
  · intro other candidate higher
    have isFirst : other = firstIndex := by
      rcases List.mem_cons.mp candidate.member with rfl | later
      · rfl
      · rw [List.mem_singleton.mp later] at higher
        exact absurd higher (lt_irrefl _)
    rw [isFirst]
    constructor
    · refine ⟨firstIndex, ⟨le_rfl, ?_, ?_⟩, Or.inr ⟨rfl, rfl⟩⟩
      · rintro (onActive | connects)
        · exact absurd onActive (by decide)
        · exact absurd connects (by decide)
      · intro ancestor earlier
        exact Or.inl (Lineage.lt_child_iff.mp earlier)
    · rintro stale ⟨below, blocked⟩
      exact below.trans (Lineage.le_child _ _)
  · intro other leads higher
    cases leads.mostWork
    exact absurd higher (lt_irrefl _)

/-- The candidate, and what connects of it, has the work of the old tip. -/
structure HasWork
    (outcomes : Outcomes CBlock) (tip pindex : CBlockIndex) : Prop where
  whole : nChainWork tip ≤ nChainWork pindex
  connected :
    ∀ blocked last,
      FirstBlocked outcomes.connectTip tip pindex blocked →
        blocked.pprev? = some last → nChainWork tip ≤ nChainWork last

theorem nChainWork_le_of_rank
    {fields : IndexFields CBlockIndex} {first second : CBlockIndex}
    (work : fields.nChainWork = nChainWork)
    (lower : rankOf fields first ≤ rankOf fields second) :
    nChainWork first ≤ nChainWork second := by
  rw [rankOf, rankOf, Prod.Lex.toLex_le_toLex, work] at lower
  rw [BitVec.le_def]
  rcases lower with strict | ⟨same, -⟩
  · exact strict.le
  · exact same.le

/-- The lottery key that block 2 needs is not known yet. -/
def waitingOutcomes : Outcomes CBlock :=
  rejectOne 2 ⟨0, .invalidLotto, "check lotto result error", true⟩
    ⟨.invalidLotto, rfl⟩

def waitingIndex : CBlockIndex := .child genesisIndex (plainBlock 0 2)

/-- The state after block 1 is connected. -/
def firstConnected : TreeState :=
  stateOf [firstIndex]
    { chainActive := some firstIndex
      chainMostWork := some firstIndex
      setBlockIndexValid := [firstIndex, genesisIndex]
      failed := [] }

/-- The state after block 2 has come in as a side branch. -/
def waitingKnown : TreeState :=
  stateOf [waitingIndex, firstIndex]
    { chainActive := some firstIndex
      chainMostWork := some firstIndex
      setBlockIndexValid := [waitingIndex, firstIndex, genesisIndex]
      failed := [] }

/-- The state when `ActivateBestChain` is called for block 3 on block 2. -/
def waitingExtended : TreeState :=
  stateOf [.child waitingIndex (plainBlock 2 3), waitingIndex, firstIndex]
    { chainActive := some firstIndex
      chainMostWork := some firstIndex
      setBlockIndexValid :=
        [.child waitingIndex (plainBlock 2 3), waitingIndex, firstIndex,
          genesisIndex]
      failed := [] }

theorem reachable_firstConnected :
    Reachable (machineOf nonceHash) firstConnected := by
  have activated :
      activate (machineOf nonceHash) startChain waitingOutcomes.connectTip 1
        firstAdded = .ok firstConnected := by
    refine activate_eq_ok.mpr ⟨firstConnected.chain, ?_, rfl⟩
    rw [blockIndexWorkComparator_eq_distinct]
    decide
  exact (Reachable.genesis genesisBlock).added parentKnown_first
    addEntry_first activated

theorem reachable_waitingKnown :
    Reachable (machineOf nonceHash) waitingKnown := by
  have entry :
      addEntry (machineOf nonceHash) firstConnected (plainBlock 0 2) =
        .ok waitingKnown := by
    simp only [addEntry, newIndex, blockHash_machineOf]
    rfl
  have activated :
      activate (machineOf nonceHash) startChain waitingOutcomes.connectTip 1
        waitingKnown = .ok waitingKnown := by
    refine activate_eq_ok.mpr ⟨waitingKnown.chain, ?_, rfl⟩
    rw [blockIndexWorkComparator_eq_distinct]
    decide
  refine reachable_firstConnected.added
    ⟨genesisIndex, List.mem_cons_of_mem _ List.mem_cons_self, ?_⟩ entry
    activated
  rw [blockHash_machineOf]
  rfl

theorem atCall_waitingExtended :
    AtCall (machineOf nonceHash) waitingExtended := by
  have entry :
      addEntry (machineOf nonceHash) waitingKnown (plainBlock 2 3) =
        .ok waitingExtended := by
    simp only [addEntry, newIndex, blockHash_machineOf]
    rfl
  refine .added reachable_waitingKnown ⟨waitingIndex, List.mem_cons_self, ?_⟩
    entry
  rw [blockHash_machineOf]
  rfl

end DSValue.Chain.Reorganisation

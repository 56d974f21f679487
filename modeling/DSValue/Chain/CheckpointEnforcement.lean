import DSValue.Chain.BranchSweep

/-!
# Whether a checkpoint is enforced

After `CheckActiveChain` the active chain should agree with the checkpoint, it
should contain the last known checkpoint if it can, and no candidate should
descend from a block with another hash at the height.  Whether it is so depends
on the chain of the last known checkpoint and on the order of the candidates.
-/

namespace DSValue.Chain.CheckpointEnforcement

open DSValue.Lib
open DSValue.Core.Serialize
open DSValue.Core.Header
open DSValue.Core.Transaction
open DSValue.Consensus.CheckLottoResult
open DSValue.Consensus.CheckBlock
open DSValue.Consensus.QuietChain
open DSValue.Chain.BestChain
open DSValue.Chain.Activation
open DSValue.Chain.Passes
open DSValue.Chain.Termination
open DSValue.Chain.BlockIndex
open DSValue.Chain.Reorganisation
open DSValue.Chain.CheckActiveChain
open DSValue.Chain.Containment
open DSValue.Chain.CandidateSweep
open DSValue.Chain.BranchSweep
open DSValue.Chain.Runs

variable {machine : Machine} {checkpoints : Checkpoints}
  {connectTip : CBlockIndex → Option Reject} {hash : Uint256}
  {state : TreeState}
  {genesis tip mostWork pcheckpoint fork last pindex : CBlockIndex}
  {stopped : Option (CBlockIndex × Reject)}

/-! ## Connecting a chain -/

/-- All blocks up to an index are active or connect. -/
def ConnectsUpTo
    (connectTip : CBlockIndex → Option Reject) (tip pindex : CBlockIndex) :
    Prop :=
  ∀ ancestor ≤ pindex, ancestor ≤ tip ∨ connectTip ancestor = none

section Settled

variable (isFork : IsFork tip mostWork fork)
  (reached : Reached connectTip fork mostWork last stopped)

include isFork reached

theorem not_connectsUpTo_of_stopped
    {pindexConnect : CBlockIndex} {reject : Reject}
    (isStopped : stopped = some (pindexConnect, reject)) :
    ¬ ConnectsUpTo connectTip tip pindexConnect := by
  intro connects
  rcases reached.blocked pindexConnect reject isStopped with
    ⟨onChain, parent, fails⟩
  rcases Lineage.eq_child_of_pprev? parent with ⟨block, rfl⟩
  rcases connects _ le_rfl with active | succeeds
  · exact Lineage.not_child_le last block
      ((isFork.greatest _ active onChain).trans reached.above)
  · rw [fails] at succeeds
    cases succeeds

/-- The new chain contains what connects. -/
theorem le_last_iff (below : pindex ≤ mostWork) :
    pindex ≤ last ↔ ConnectsUpTo connectTip tip pindex := by
  constructor
  · intro inside ancestor under
    exact (reached.connected ancestor (under.trans inside)).imp_left
      fun lower => lower.trans isFork.onTip
  · intro connects
    cases isStopped : stopped with
    | none =>
        rw [reached.complete isStopped]
        exact below
    | some rejected =>
        rcases rejected with ⟨pindexConnect, reject⟩
        have fails := not_connectsUpTo_of_stopped isFork reached isStopped
        rcases reached.blocked pindexConnect reject isStopped with
          ⟨onChain, parent, -⟩
        rcases Lineage.eq_child_of_pprev? parent with ⟨block, rfl⟩
        rcases Lineage.le_total_of_le below onChain with lower | higher
        · rcases Lineage.le_child_iff.mp lower with rfl | inside
          · exact absurd connects fails
          · exact inside
        · exact absurd
            (fun ancestor under => connects ancestor (under.trans higher))
            fails

end Settled

/-! ## What enforcement means -/

/-- The chain agrees with a checkpoint and with the last known one. -/
structure Agrees
    (machine : Machine) (checkpoints : Checkpoints)
    (connectTip : CBlockIndex → Option Reject) (nHeight : Nat)
    (hash : Uint256) (state : TreeState) (tip newTip : CBlockIndex) :
    Prop where
  atHeight :
    newTip.at? nHeight = none ∨ hasHash machine newTip nHeight hash = true
  contains :
    ∀ pcheckpoint,
      getLastCheckpoint machine checkpoints state = some pcheckpoint →
        ConnectsUpTo connectTip tip pcheckpoint → pcheckpoint ≤ newTip

/-- `CheckActiveChain` returns, and the checkpoint holds afterwards. -/
def Enforces
    (machine : Machine) (checkpoints : Checkpoints)
    (connectTip : CBlockIndex → Option Reject) (nHeight : Int32)
    (hash : Uint256) (state : TreeState) (tip : CBlockIndex) : Prop :=
  ∃ next newTip,
    checkActiveChain machine checkpoints connectTip nHeight hash state =
      .ok next ∧
    next.chain.chainActive = some newTip ∧
    Agrees machine checkpoints connectTip nHeight.toInt.toNat hash state tip
      newTip ∧
    ∀ pindex ∈ next.chain.setBlockIndexValid,
      ¬ Wrong machine nHeight.toInt.toNat hash pindex

/-- The block of a chain at a height has a hash if it connects. -/
def AgreesUpTo
    (machine : Machine) (connectTip : CBlockIndex → Option Reject)
    (nHeight : Nat) (hash : Uint256) (tip mostWork : CBlockIndex) : Prop :=
  ∀ pindex, mostWork.at? nHeight = some pindex →
    ConnectsUpTo connectTip tip pindex →
      machine.blockHash pindex.item = hash

/-- When a checkpoint is enforced, by the state before. -/
def Enforceable
    (machine : Machine) (checkpoints : Checkpoints)
    (connectTip : CBlockIndex → Option Reject) (nHeight : Nat)
    (hash : Uint256) (state : TreeState) (tip : CBlockIndex) : Prop :=
  if hasHash machine tip nHeight hash then
    (∀ pcheckpoint,
      getLastCheckpoint machine checkpoints state = some pcheckpoint →
        ConnectsUpTo connectTip tip pcheckpoint → pcheckpoint ≤ tip) ∧
      ∀ pindex ∈ state.chain.setBlockIndexValid,
        ¬ Wrong machine nHeight hash pindex
  else
    match getLastCheckpoint machine checkpoints state with
    | none =>
        tip.at? nHeight = none →
          ∀ pindex ∈ state.chain.setBlockIndexValid,
            ¬ Wrong machine nHeight hash pindex
    | some pcheckpoint =>
        if pcheckpoint.height < nHeight then
          ∀ pindex ∈ state.chain.setBlockIndexValid,
            Wrong machine nHeight hash pindex →
              Outranks (comparatorOf machine state) pcheckpoint
                state.chain.setBlockIndexValid pindex
        else
          AgreesUpTo machine connectTip nHeight hash tip pcheckpoint ∧
            ∀ pindex ∈ state.chain.setBlockIndexValid,
              Wrong machine nHeight hash pindex →
                Erased (comparatorOf machine state) pcheckpoint
                  state.chain.setBlockIndexValid pindex

/-! ## The new chain -/

section Settled

variable {nHeight : Nat} (isFork : IsFork tip mostWork fork)
  (reached : Reached connectTip fork mostWork last stopped)

include isFork reached

/-- The new chain agrees at a height with what connects of `chainMostWork`. -/
theorem atHeight_iff :
    (last.at? nHeight = none ∨ hasHash machine last nHeight hash = true) ↔
      AgreesUpTo machine connectTip nHeight hash tip mostWork := by
  constructor
  · intro agrees pindex found connects
    have onLast : last.at? nHeight = some pindex := by
      have inside := (le_last_iff isFork reached (Lineage.le_of_at? found)).mpr
        connects
      rw [← (Lineage.at?_height found).1]
      exact inside
    rw [onLast, hasHash_eq_of_at? onLast] at agrees
    simpa using agrees
  · intro agrees
    cases found : last.at? nHeight with
    | none => exact Or.inl rfl
    | some pindex =>
        refine Or.inr ?_
        have below := (Lineage.le_of_at? found).trans reached.below
        rw [Lineage.le_iff_at?, (Lineage.at?_height found).1] at below
        rw [hasHash_eq_of_at? found, decide_eq_true_eq]
        exact agrees pindex below
          ((le_last_iff isFork reached (Lineage.le_of_at? below)).mp
            (Lineage.le_of_at? found))

variable {chain next : ChainState CBlock}

omit isFork in
/-- Connecting adds no wrong candidate to a chain that agrees. -/
theorem clean_iff
    (agrees :
      last.at? nHeight = none ∨ hasHash machine last nHeight hash = true)
    (connected : Connected fork last stopped chain next) :
    (∀ pindex ∈ next.setBlockIndexValid,
        ¬ Wrong machine nHeight hash pindex) ↔
      ∀ pindex ∈ chain.setBlockIndexValid,
        ¬ Wrong machine nHeight hash pindex := by
  have sound : nHeight ≤ last.height →
      hasHash machine last nHeight hash = true := by
    intro high
    rcases agrees with absent | same
    · rcases Lineage.at?_isSome high with ⟨pindex, found⟩
      rw [absent] at found
      cases found
    · exact same
  constructor
  · intro clean pindex member
    rcases connected.kept pindex member with stays | ⟨reject, isStopped⟩
    · exact clean pindex stays
    · rcases reached.blocked pindex reject isStopped with ⟨-, parent, -⟩
      rcases Lineage.eq_child_of_pprev? parent with ⟨block, rfl⟩
      rintro ⟨high, differs⟩
      have inside : nHeight ≤ last.height := Nat.lt_succ_iff.mp high
      rw [hasHash_of_le (Lineage.le_child last block) inside, sound inside]
        at differs
      cases differs
  · intro clean pindex member
    rcases connected.inserted pindex member with earlier | ⟨under, -⟩
    · exact clean pindex earlier
    · rintro ⟨high, differs⟩
      rw [← hasHash_of_le under high.le,
        sound (high.le.trans (Lineage.height_le_of_le under))] at differs
      cases differs

end Settled

/-- Moving the active chain enforces the checkpoint if the new tip does. -/
theorem settle_enforces_iff
    {nHeight : Nat} {candidates : List CBlockIndex}
    (tree : Tree (· ∈ state.mapBlockIndex) genesis)
    (tipKnown : tip ∈ state.mapBlockIndex)
    (mostWorkKnown : mostWork ∈ state.mapBlockIndex)
    (above :
      ∀ pcheckpoint,
        getLastCheckpoint machine checkpoints state = some pcheckpoint →
          pcheckpoint ≤ mostWork) :
    (∃ newTip,
        (settle connectTip tip mostWork candidates state.chain).chainActive =
            some newTip ∧
          Agrees machine checkpoints connectTip nHeight hash state tip
            newTip ∧
          ∀ pindex ∈
              (settle connectTip tip mostWork candidates
                state.chain).setBlockIndexValid,
            ¬ Wrong machine nHeight hash pindex) ↔
      AgreesUpTo machine connectTip nHeight hash tip mostWork ∧
        ∀ pindex ∈ candidates, ¬ Wrong machine nHeight hash pindex := by
  rcases @settle_spec _ _ _ _ state.chain connectTip tree tipKnown
      mostWorkKnown candidates with
    ⟨fork, last, stopped, isFork, reached, connected⟩
  constructor
  · rintro ⟨newTip, isActive, agrees, clean⟩
    rw [connected.active] at isActive
    cases isActive
    exact ⟨(atHeight_iff isFork reached).mp agrees.atHeight,
      (clean_iff reached agrees.atHeight connected).mp clean⟩
  · rintro ⟨agrees, clean⟩
    have atHeight := (atHeight_iff isFork reached).mpr agrees
    refine ⟨last, connected.active, ⟨atHeight, ?_⟩,
      (clean_iff reached atHeight connected).mpr clean⟩
    intro pcheckpoint found connects
    exact (le_last_iff isFork reached (above pcheckpoint found)).mpr connects

/-! ## The cases of `CheckActiveChain` -/

theorem enforceCheckpoint_eq
    {less : CBlockIndex → CBlockIndex → Bool} {nHeight : Nat}
    {chain : ChainState CBlock} {loop : Enforcement}
    (ended :
      Loop.run (enforcePass less nHeight pcheckpoint)
        (passes chain.setBlockIndexValid)
        ⟨⟨chain.setBlockIndexValid, 0⟩, pcheckpoint⟩ = some loop) :
    enforceCheckpoint less connectTip nHeight pcheckpoint tip chain =
      .ok (settle connectTip tip loop.chainMostWork loop.candidates chain) := by
  rw [enforceCheckpoint, ended]
  rfl

theorem removeBlock_eq
    {less : CBlockIndex → CBlockIndex → Bool} {nHeight : Nat}
    {chain : ChainState CBlock} {sweep : Sweep} {pprev : CBlockIndex}
    (ended :
      Loop.run (removePass machine less nHeight hash)
        (passes chain.setBlockIndexValid) ⟨chain.setBlockIndexValid, 0⟩ =
        some sweep)
    (isPprev : tip.at? (nHeight - 1) = some pprev) :
    removeBlock machine less connectTip nHeight hash tip chain =
      .ok (settle connectTip tip pprev sweep.candidates chain) := by
  rw [removeBlock, ended, isPprev]
  rfl

section Cases

variable {nHeight : Int32}

theorem enforces_of_result
    {next : TreeState}
    (result :
      checkActiveChain machine checkpoints connectTip nHeight hash state =
        .ok next) :
    Enforces machine checkpoints connectTip nHeight hash state tip ↔
      ∃ newTip, next.chain.chainActive = some newTip ∧
        Agrees machine checkpoints connectTip nHeight.toInt.toNat hash state
          tip newTip ∧
        ∀ pindex ∈ next.chain.setBlockIndexValid,
          ¬ Wrong machine nHeight.toInt.toNat hash pindex := by
  rw [Enforces, result]
  constructor
  · rintro ⟨_, newTip, ⟨⟩, enforced⟩
    exact ⟨newTip, enforced⟩
  · rintro ⟨newTip, enforced⟩
    exact ⟨next, newTip, rfl, enforced⟩

/-- A chain that is left as it is has to agree already. -/
theorem enforces_of_unchanged
    (isActive : state.chain.chainActive = some tip)
    (result :
      checkActiveChain machine checkpoints connectTip nHeight hash state =
        .ok state) :
    Enforces machine checkpoints connectTip nHeight hash state tip ↔
      Agrees machine checkpoints connectTip nHeight.toInt.toNat hash state tip
          tip ∧
        ∀ pindex ∈ state.chain.setBlockIndexValid,
          ¬ Wrong machine nHeight.toInt.toNat hash pindex := by
  rw [enforces_of_result result, isActive]
  constructor
  · rintro ⟨_, ⟨⟩, enforced⟩
    exact enforced
  · exact fun enforced => ⟨tip, rfl, enforced⟩

variable (grown : Grown genesis state)
  (isActive : state.chain.chainActive = some tip)

include isActive

theorem tip_mem (grown : Grown genesis state) :
    tip ∈ state.mapBlockIndex := by
  rcases grown.within.active with ⟨other, isOther, isKnown⟩
  rw [isActive] at isOther
  cases isOther
  exact isKnown

variable (positive : 1 ≤ nHeight.toInt)

include positive

theorem enforces_of_hasHash
    (same : hasHash machine tip nHeight.toInt.toNat hash = true) :
    Enforces machine checkpoints connectTip nHeight hash state tip ↔
      (∀ pcheckpoint,
        getLastCheckpoint machine checkpoints state = some pcheckpoint →
          ConnectsUpTo connectTip tip pcheckpoint → pcheckpoint ≤ tip) ∧
        ∀ pindex ∈ state.chain.setBlockIndexValid,
          ¬ Wrong machine nHeight.toInt.toNat hash pindex := by
  rw [enforces_of_unchanged isActive
    (checkActiveChain_of_hasHash positive isActive same)]
  exact and_congr_left' ⟨fun agrees => agrees.contains,
    fun contains => ⟨Or.inr same, contains⟩⟩

variable
  (differs : hasHash machine tip nHeight.toInt.toNat hash = false)

include grown differs

theorem enforces_of_none
    (unknown : getLastCheckpoint machine checkpoints state = none) :
    Enforces machine checkpoints connectTip nHeight hash state tip ↔
      (tip.at? nHeight.toInt.toNat = none →
        ∀ pindex ∈ state.chain.setBlockIndexValid,
          ¬ Wrong machine nHeight.toInt.toNat hash pindex) := by
  have result :=
    @checkActiveChain_of_none _ _ connectTip _ _ _ _ positive isActive differs
      unknown
  by_cases absent : tip.at? nHeight.toInt.toNat = none
  · rw [if_pos absent] at result
    rw [enforces_of_unchanged isActive result]
    constructor
    · exact fun enforced _ => enforced.2
    · refine fun clean => ⟨⟨Or.inl absent, ?_⟩, clean absent⟩
      intro pcheckpoint found
      rw [unknown] at found
      cases found
  · have tipKnown := tip_mem isActive grown
    have high : nHeight.toInt.toNat ≤ tip.height := by
      rcases Option.ne_none_iff_exists'.mp absent with ⟨pindex, found⟩
      exact (Lineage.at?_height found).2
    rcases Lineage.at?_isSome (show nHeight.toInt.toNat - 1 ≤ tip.height by
        omega) with
      ⟨pprev, isPprev⟩
    rcases removePass_run (comparatorOf machine state) machine
        nHeight.toInt.toNat hash state.chain.setBlockIndexValid with
      ⟨sweep, ended, -, members⟩
    have removed :
        removeBlock machine (blockIndexWorkComparator (state.fields machine))
            connectTip nHeight.toInt.toNat hash tip state.chain =
          .ok (settle connectTip tip pprev sweep.candidates state.chain) :=
      removeBlock_eq ended isPprev
    rw [if_neg absent, removed] at result
    rw [enforces_of_result result]
    refine (settle_enforces_iff grown.tree tipKnown
      (grown.tree.closed _ _ tipKnown (Lineage.le_of_at? isPprev)) ?_).trans
      ⟨fun _ missing => absurd missing absent, fun _ => ⟨?_, ?_⟩⟩
    · intro pcheckpoint found
      rw [unknown] at found
      cases found
    · intro pindex found
      have lower := (Lineage.at?_height found).2
      rw [(Lineage.at?_height isPprev).1] at lower
      omega
    · exact fun pindex member => ((members pindex).mp member).2

variable
  (found : getLastCheckpoint machine checkpoints state = some pcheckpoint)

include found

/-- What a loop with a checkpoint ends in decides. -/
theorem enforces_of_run
    {loop : Enforcement}
    (ended :
      Loop.run
          (enforcePass (comparatorOf machine state).less nHeight.toInt.toNat
            pcheckpoint)
          (passes state.chain.setBlockIndexValid)
          ⟨⟨state.chain.setBlockIndexValid, 0⟩, pcheckpoint⟩ = some loop)
    (isKnown : loop.chainMostWork ∈ state.mapBlockIndex)
    (above : pcheckpoint ≤ loop.chainMostWork) :
    Enforces machine checkpoints connectTip nHeight hash state tip ↔
      AgreesUpTo machine connectTip nHeight.toInt.toNat hash tip
          loop.chainMostWork ∧
        ∀ pindex ∈ loop.candidates,
          ¬ Wrong machine nHeight.toInt.toNat hash pindex := by
  have enforced :
      enforceCheckpoint (blockIndexWorkComparator (state.fields machine))
          connectTip nHeight.toInt.toNat pcheckpoint tip state.chain =
        .ok (settle connectTip tip loop.chainMostWork loop.candidates
          state.chain) :=
    enforceCheckpoint_eq ended
  have result :=
    @checkActiveChain_of_checkpoint _ _ connectTip _ _ _ _ positive isActive _
      differs found
  rw [enforced] at result
  rw [enforces_of_result result]
  refine settle_enforces_iff grown.tree (tip_mem isActive grown) isKnown ?_
  intro other isOther
  rw [found] at isOther
  cases isOther
  exact above

theorem enforces_of_low
    (low : pcheckpoint.height < nHeight.toInt.toNat) :
    Enforces machine checkpoints connectTip nHeight hash state tip ↔
      ∀ pindex ∈ state.chain.setBlockIndexValid,
        Wrong machine nHeight.toInt.toNat hash pindex →
          Outranks (comparatorOf machine state) pcheckpoint
            state.chain.setBlockIndexValid pindex := by
  rcases enforcePass_run_low (comparatorOf machine state) low
      state.chain.setBlockIndexValid with
    ⟨loop, ended, -, mostWork, members⟩
  rw [enforces_of_run grown isActive positive differs found ended
    (by rw [mostWork]; exact getLastCheckpoint_mem found)
    (by rw [mostWork]), mostWork]
  constructor
  · rintro ⟨-, clean⟩ pindex member wrong
    by_contra stays
    refine clean pindex ((members pindex).mpr ⟨member, ?_⟩) wrong
    exact fun gone => stays gone.2
  · intro outranks
    refine ⟨?_, ?_⟩
    · intro pindex isAncestor
      have lower := (Lineage.at?_height isAncestor).2
      omega
    · intro pindex member wrong
      rcases (members pindex).mp member with ⟨isCandidate, stays⟩
      exact stays ⟨wrong.1.le, outranks pindex isCandidate wrong⟩

theorem enforces_of_high
    (high : ¬ pcheckpoint.height < nHeight.toInt.toNat) :
    Enforces machine checkpoints connectTip nHeight hash state tip ↔
      AgreesUpTo machine connectTip nHeight.toInt.toNat hash tip
          pcheckpoint ∧
        ∀ pindex ∈ state.chain.setBlockIndexValid,
          Wrong machine nHeight.toInt.toNat hash pindex →
            Erased (comparatorOf machine state) pcheckpoint
              state.chain.setBlockIndexValid pindex := by
  have within := grown.within
  rcases enforcePass_run_high high
      (fun pindex member =>
        grown.tree.rooted pindex (within.candidates pindex member))
      (grown.tree.rooted _ (getLastCheckpoint_mem found))
      (comparatorOf machine state) within.distinct with
    ⟨loop, ended, final⟩
  have above : pcheckpoint ≤ loop.chainMostWork := by
    rcases final.mostWork with same | ⟨higher, -⟩
    · exact same.ge
    · exact higher.le
  have isKnown : loop.chainMostWork ∈ state.mapBlockIndex := by
    rcases final.mostWork with same | ⟨-, member⟩
    · rw [same]
      exact getLastCheckpoint_mem found
    · exact within.candidates _ member
  have sameBlock :
      loop.chainMostWork.at? nHeight.toInt.toNat =
        pcheckpoint.at? nHeight.toInt.toNat :=
    (Lineage.at?_of_at? (Lineage.le_iff_at?.mp above) (not_lt.mp high)).symm
  rw [enforces_of_run grown isActive positive differs found ended isKnown
    above, AgreesUpTo, sameBlock]
  refine and_congr_right' ⟨?_, ?_⟩
  · intro clean pindex member wrong
    by_contra stays
    exact clean pindex ((final.members pindex).mpr ⟨member, stays⟩) wrong
  · intro erased pindex member wrong
    rcases (final.members pindex).mp member with ⟨isCandidate, stays⟩
    exact stays (erased pindex isCandidate wrong)

end Cases

/-- When the checkpoint is enforced, for a state with chains in its tree. -/
theorem enforces_iff
    {nHeight : Int32} (grown : Grown genesis state)
    (isActive : state.chain.chainActive = some tip)
    (positive : 1 ≤ nHeight.toInt) :
    Enforces machine checkpoints connectTip nHeight hash state tip ↔
      Enforceable machine checkpoints connectTip nHeight.toInt.toNat hash
        state tip := by
  rw [Enforceable]
  cases same : hasHash machine tip nHeight.toInt.toNat hash with
  | true =>
      rw [if_pos rfl]
      exact enforces_of_hasHash isActive positive same
  | false =>
      rw [if_neg Bool.false_ne_true]
      cases found : getLastCheckpoint machine checkpoints state with
      | none => exact enforces_of_none grown isActive positive same found
      | some pcheckpoint =>
          dsimp only
          split_ifs with low
          · exact enforces_of_low grown isActive positive same found low
          · exact enforces_of_high grown isActive positive same found low

/-- `CheckActiveChain` enforces a checkpoint exactly in these states. -/
theorem checkActiveChain_enforces_iff
    (machine : Machine) (checkpoints : Checkpoints)
    (outcomes : Outcomes CBlock) (nHeight : Int32) (hash : Uint256)
    (state : TreeState) (tip : CBlockIndex) (run : Run machine state)
    (isActive : state.chain.chainActive = some tip)
    (positive : 1 ≤ nHeight.toInt) :
    Enforces machine checkpoints outcomes.connectTip nHeight hash state tip ↔
      Enforceable machine checkpoints outcomes.connectTip nHeight.toInt.toNat
        hash state tip := by
  rcases run.grown with ⟨genesis, grown⟩
  exact enforces_iff grown isActive positive

theorem checkActiveChain_enforces_iff_genesis :
    Enforces (machineOf nonceHash) ⟨true, OrderedMap.empty⟩
        connecting.connectTip 1 1 (genesisState genesisBlock) genesisIndex ↔
      Enforceable (machineOf nonceHash) ⟨true, OrderedMap.empty⟩
        connecting.connectTip 1 1 (genesisState genesisBlock) genesisIndex :=
  checkActiveChain_enforces_iff (machineOf nonceHash) ⟨true, OrderedMap.empty⟩
    connecting 1 1 (genesisState genesisBlock) genesisIndex
    (.genesis (machineOf nonceHash) genesisBlock) rfl (by decide)

/-! ### Two blocks on one wrong branch -/

/-- A child with a nonce. -/
def childOf (pprev : CBlockIndex) (nonce : Nat) : CBlockIndex :=
  .child pprev (plainBlock pprev.item.nNonce.toNat nonce)

def rightIndex : CBlockIndex := childOf genesisIndex 1

def rightTip : CBlockIndex := childOf rightIndex 2

def wrongIndex : CBlockIndex := childOf genesisIndex 3

def wrongTip : CBlockIndex := childOf (childOf wrongIndex 4) 5

/-- The blocks come in while the checkpoint is not known. -/
def branchedHistory : List (CBlockIndex × CBlockIndex) :=
  [(childOf wrongIndex 7, wrongTip), (childOf wrongIndex 6, wrongTip),
    (wrongTip, wrongTip), (childOf wrongIndex 4, rightTip),
    (wrongIndex, rightTip), (rightTip, rightTip), (rightIndex, rightIndex)]

theorem branchedHistory_valid :
    History (machineOf nonceHash) startChain branchedHistory := by
  decide

def branchedState : TreeState := historyState branchedHistory

/-- The first block after the genesis block is a checkpoint. -/
def firstCheckpoint : Checkpoints := ⟨true, OrderedMap.empty.insert 1 1⟩

theorem getLastCheckpoint_branchedState :
    getLastCheckpoint (machineOf nonceHash) firstCheckpoint branchedState =
      some rightIndex := by
  simp only [getLastCheckpoint, findIndex, blockHash_machineOf]
  decide

theorem hasHash_machineOf (pindex : CBlockIndex) (nHeight : Nat) :
    hasHash (machineOf nonceHash) pindex nHeight 1 =
      (pindex.at? nHeight).any fun pindex => nonceOf pindex.item = 1 := by
  simp only [hasHash, blockHash_machineOf]

/-- The comparator of the state. -/
noncomputable abbrev branchedComparator : Comparator :=
  comparatorOf (machineOf nonceHash) branchedState

theorem less_branched (first second : CBlockIndex) :
    branchedComparator.less first second =
      distinctComparator (branchedState.fields (machineOf nonceHash)) first
        second := by
  rw [Comparator.less, blockIndexWorkComparator_eq_distinct]
  rfl

theorem leader_rightTip :
    Leader branchedComparator rightIndex
      branchedState.chain.setBlockIndexValid rightTip := by
  refine ⟨by decide, by decide, by decide, ?_⟩
  simp only [less_branched]
  decide

theorem not_early
    {pindex : CBlockIndex}
    (lower : branchedComparator.less rightTip pindex = false) :
    ¬ Early branchedComparator rightIndex
      branchedState.chain.setBlockIndexValid pindex := by
  intro early
  have higher := early.ahead rightTip leader_rightTip.member
    (Or.inr leader_rightTip)
  rw [lower] at higher
  cases higher

/-- The lower one of the two is met first, and the loop stops after it. -/
theorem not_erased_second :
    ¬ Erased branchedComparator rightIndex
      branchedState.chain.setBlockIndexValid (childOf wrongIndex 7) := by
  have firstTop :
      ∀ other ∈ branchedState.chain.setBlockIndexValid,
        childOf wrongIndex 6 ≤ other → other = childOf wrongIndex 6 := by
    decide
  have secondTop :
      ∀ other ∈ branchedState.chain.setBlockIndexValid,
        childOf wrongIndex 7 ≤ other → other = childOf wrongIndex 7 := by
    decide
  have order :
      branchedComparator.less (childOf wrongIndex 7) (childOf wrongIndex 6) =
        true := by
    rw [less_branched]
    decide
  rintro ⟨met, early | late, below, -⟩
  · rw [secondTop met early.member below] at early
    refine not_early ?_ early
    rw [less_branched]
    decide
  · rw [secondTop met late.member below] at late
    have best := late.best (childOf wrongIndex 6) (by decide)
      ⟨by decide, by decide⟩ ?_
    · rw [order] at best
      cases best
    · intro early isEarly under
      rw [firstTop early isEarly.member under] at isEarly
      refine not_early ?_ isEarly
      rw [less_branched]
      decide

/-- The checkpoints whose blocks are known lie on one chain. -/
def OneChain
    (machine : Machine) (checkpoints : Checkpoints) (state : TreeState) :
    Prop :=
  ∀ first ∈ checkpoints.mapCheckpoints.entries,
    ∀ second ∈ checkpoints.mapCheckpoints.entries,
      ∀ lower upper, findIndex machine state first.2 = some lower →
        findIndex machine state second.2 = some upper →
          lower ≤ upper ∨ upper ≤ lower

/--
The checkpoint is the first block of the right branch.  The loop erases the
best block of the wrong branch with its ancestors, the tip moves up the right
branch, and one more block of the wrong branch goes.  The loop then starts
again at the new tip and is over, although another block of the wrong branch
is left.
-/
theorem secondBranch_stays :
    ∃ (state : TreeState) (checkpoints : Checkpoints)
        (outcomes : Outcomes CBlock) (tip : CBlockIndex),
      Run (machineOf nonceHash) state ∧
      state.chain.chainActive = some tip ∧
      OneChain (machineOf nonceHash) checkpoints state ∧
      ¬ Enforces (machineOf nonceHash) checkpoints outcomes.connectTip 1 1
        state tip := by
  have run : Run (machineOf nonceHash) branchedState :=
    run_of_history branchedHistory_valid
  have isActive : branchedState.chain.chainActive = some wrongTip := rfl
  have positive : 1 ≤ (1 : Int32).toInt := by decide
  refine ⟨branchedState, firstCheckpoint, connecting, wrongTip, run, isActive,
    ?_, ?_⟩
  · have only :
        firstCheckpoint.mapCheckpoints.entries = [(1, 1)] := by
      decide
    intro first isFirst second isSecond lower upper isLower isUpper
    rw [only, List.mem_singleton] at isFirst isSecond
    rw [isFirst] at isLower
    rw [isSecond, isLower] at isUpper
    cases isUpper
    exact Or.inl le_rfl
  · rcases run.grown with ⟨genesis, grown⟩
    rw [enforces_iff grown isActive positive, Enforceable,
      getLastCheckpoint_branchedState, hasHash_machineOf,
      if_neg (by decide)]
    dsimp only
    rw [if_neg (by decide)]
    rintro ⟨-, erased⟩
    refine not_erased_second
      (erased (childOf wrongIndex 7) (by decide) ⟨?_, ?_⟩)
    · decide
    · rw [hasHash_machineOf]
      decide

end DSValue.Chain.CheckpointEnforcement

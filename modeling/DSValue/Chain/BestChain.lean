import DSValue.Consensus.CheckLottoResult
import DSValue.Lib.Loop
import DSValue.Lib.Ranking

/-!
# Choosing and activating the best chain

`FindMostWorkChain` and `ActivateBestChain` on a tree of block indexes.  A
pointer to a block index is a lineage, a chain is given by its tip, and the
set of candidates is a list whose last element in the order of the comparator
is looked up when it is needed.

The Bitcoin header chain keeps a second copy of the same code, without the
check of the Bitcoin hashes and without rejections; it uses the definitions of
this module with other parameters.
-/

namespace DSValue.Chain.BestChain

open DSValue.Lib
open DSValue.Core.Serialize
open DSValue.Consensus.CheckLottoResult

/-! ## The comparator -/

/-- The fields of a block index that the comparator reads. -/
structure IndexFields (ι : Type) where
  nChainWork : ι → Uint256
  uLottoKey : ι → Uint256
  nSequenceId : ι → UInt32
  address : ι → Nat

/-- `CBlockIndexWorkComparator`. -/
def blockIndexWorkComparator
    {ι : Type} (fields : IndexFields ι) (pa pb : ι) : Bool :=
  if fields.nChainWork pb < fields.nChainWork pa then false
  else if fields.nChainWork pa < fields.nChainWork pb then true
  else if fields.uLottoKey pa ≠ 0 ∧ fields.uLottoKey pb = 0 then false
  else if fields.uLottoKey pa = 0 ∧ fields.uLottoKey pb ≠ 0 then true
  else if fields.nSequenceId pa < fields.nSequenceId pb then false
  else if fields.nSequenceId pb < fields.nSequenceId pa then true
  else if fields.address pa < fields.address pb then false
  else if fields.address pb < fields.address pa then true
  else false

/-! ## The state -/

variable {α : Type} [DecidableEq α]

/-- The chains, the candidates and the indexes with a failure bit. -/
structure ChainState (α : Type) where
  chainActive : Option (Lineage α)
  chainMostWork : Option (Lineage α)
  setBlockIndexValid : List (Lineage α)
  failed : List (Lineage α)
deriving DecidableEq

/-- `CChain::Contains` for the chain of a tip. -/
def contains (chain : Option (Lineage α)) (pindex : Lineage α) : Bool :=
  match chain with
  | none => false
  | some tip => pindex ≤ tip

/-- `CChain::Height() + 1`. -/
def nextHeight (chain : Option (Lineage α)) : Nat :=
  match chain with
  | none => 0
  | some tip => tip.height + 1

/-- `setBlockIndexValid.erase(pindex)`. -/
def ChainState.erase (state : ChainState α) (pindex : Lineage α) :
    ChainState α :=
  { state with
    setBlockIndexValid := state.setBlockIndexValid.filter (· ≠ pindex) }

/-- Sets a failure bit of an index and erases it from the candidates. -/
def ChainState.markFailed (state : ChainState α) (pindex : Lineage α) :
    ChainState α :=
  { state.erase pindex with failed := pindex :: state.failed }

/-- `setBlockIndexValid.insert(pindex)`. -/
def ChainState.insert (state : ChainState α) (pindex : Lineage α) :
    ChainState α :=
  { state with setBlockIndexValid := pindex :: state.setBlockIndexValid }

/-! ## `FindMostWorkChain` -/

/-- The loop that leaves failed tips of `chainMostWork` behind. -/
def dropFailedTips (state : ChainState α) : Lineage α → ChainState α
  | .root item =>
      if .root item ∈ state.failed then
        { state.erase (.root item) with chainMostWork := none }
      else { state with chainMostWork := some (.root item) }
  | .child pprev item =>
      if .child pprev item ∈ state.failed then
        dropFailedTips (state.erase (.child pprev item)) pprev
      else { state with chainMostWork := some (.child pprev item) }

/-- `chainMostWork` without failed tips. -/
def dropFailed (state : ChainState α) : ChainState α :=
  match state.chainMostWork with
  | none => state
  | some tip => dropFailedTips state tip

/-- The first failed index on the way back from a candidate. -/
def failedAncestor? (state : ChainState α) : Lineage α → Option (Lineage α)
  | .root item =>
      if contains state.chainActive (.root item) then none
      else if .root item ∈ state.failed then some (.root item)
      else none
  | .child pprev item =>
      if contains state.chainActive (.child pprev item) then none
      else if .child pprev item ∈ state.failed then some (.child pprev item)
      else failedAncestor? state pprev

/-- Marks the path from a candidate down to a failed index as failed. -/
def removePath (pindexTest : Lineage α) :
    Lineage α → ChainState α → ChainState α
  | .root item, state =>
      if .root item = pindexTest then state
      else state.markFailed (.root item)
  | .child pprev item, state =>
      if .child pprev item = pindexTest then state
      else
        removePath pindexTest pprev (state.markFailed (.child pprev item))

/-- The chain state while a candidate is looked for. -/
structure Search (α : Type) where
  state : ChainState α
  pindexNew : Option (Lineage α)

/-- One pass of the loop over the candidates. -/
def searchPass
    (less : Lineage α → Lineage α → Bool) (valid : Lineage α → Bool)
    (search : Search α) : Option (Search α × Bool) :=
  match Ranking.greatest? less search.state.setBlockIndexValid with
  | none => some (⟨search.state, none⟩, true)
  | some pindexNew =>
      if valid pindexNew = false then
        some (⟨search.state.erase pindexNew, none⟩, false)
      else
        match failedAncestor? search.state pindexNew with
        | none => some (⟨search.state, some pindexNew⟩, true)
        | some pindexTest =>
            some (⟨removePath pindexTest pindexNew search.state, none⟩, false)

/-- The best candidate, or nothing when the loop never ends. -/
def searchCandidate
    (less : Lineage α → Lineage α → Bool) (valid : Lineage α → Bool)
    (state : ChainState α) : Option (Search α) :=
  Loop.run (searchPass less valid) (state.setBlockIndexValid.length + 1)
    ⟨state, none⟩

/-- `if (chainMostWork.Tip() && !comparator(chainMostWork.Tip(), pindexNew))`. -/
def improve
    (less : Lineage α → Lineage α → Bool) (search : Search α) :
    ChainState α :=
  match search.pindexNew, search.state.chainMostWork with
  | none, _ => search.state
  | some pindexNew, none =>
      { search.state with chainMostWork := some pindexNew }
  | some pindexNew, some tip =>
      if less tip pindexNew = false then search.state
      else { search.state with chainMostWork := some pindexNew }

/-- `FindMostWorkChain`. -/
def findMostWorkChain
    (less : Lineage α → Lineage α → Bool) (valid : Lineage α → Bool)
    (state : ChainState α) : Option (ChainState α) :=
  (searchCandidate less valid (dropFailed state)).map (improve less)

/-! ## `ActivateBestChain` -/

/-- The loop of `DisconnectTip`. -/
def disconnectTips (mostWork : Lineage α) : Lineage α → Option (Lineage α)
  | .root item => if .root item ≤ mostWork then some (.root item) else none
  | .child pprev item =>
      if .child pprev item ≤ mostWork then some (.child pprev item)
      else disconnectTips mostWork pprev

/-- The loop of `ConnectTip`, with the index that does not connect. -/
def connectTips
    (connectTip : Lineage α → Option Reject) (mostWork : Lineage α) :
    Nat → Option (Lineage α) →
      Option (Lineage α) × Option (Lineage α × Reject)
  | 0, active => (active, none)
  | left + 1, active =>
      if contains active mostWork then (active, none)
      else
        match mostWork.at? (nextHeight active) with
        | none => (active, none)
        | some pindexConnect =>
            match connectTip pindexConnect with
            | none => connectTips connectTip mostWork left (some pindexConnect)
            | some reject => (active, some (pindexConnect, reject))

/-- `InvalidBlockFound`. -/
def invalidBlockFound
    (state : ChainState α) (pindex : Lineage α) (reject : Reject) :
    ChainState α :=
  if reject.corruptionPossible then state else state.markFailed pindex

/-- What the loop does with an index that does not connect. -/
def handleReject
    (state : ChainState α) (pindexConnect : Lineage α) (reject : Reject) :
    Option (ChainState α × Bool) :=
  let found := invalidBlockFound state pindexConnect reject
  if reject.chRejectCode = .dirtyBlock then
    match pindexConnect.pprev? with
    | none => none
    | some pprev =>
        some ({ found.erase pindexConnect with chainMostWork := some pprev },
          false)
  else some (found, decide (reject.chRejectCode = .invalidLotto))

/-- The end of a pass, with the index that did not connect. -/
def finishPass (state : ChainState α) :
    Option (Lineage α × Reject) → Option (ChainState α × Bool)
  | none => some (state, true)
  | some (pindexConnect, reject) => handleReject state pindexConnect reject

/-- One pass of the loop of `ActivateBestChain`. -/
def activatePass
    (less : Lineage α → Lineage α → Bool) (valid : Lineage α → Bool)
    (connectTip : Lineage α → Option Reject) (state : ChainState α) :
    Option (ChainState α × Bool) :=
  match findMostWorkChain less valid state with
  | none => none
  | some found =>
      match found.chainMostWork with
      | none => some (found, true)
      | some mostWork =>
          let active := found.chainActive.bind (disconnectTips mostWork)
          let connected :=
            connectTips connectTip mostWork (mostWork.height + 1) active
          finishPass { found with chainActive := connected.1 } connected.2

/-- `ActivateBestChain`, with a bound on the passes of its loop. -/
def activateBestChain
    (less : Lineage α → Lineage α → Bool) (valid : Lineage α → Bool)
    (connectTip : Lineage α → Option Reject) (fuel : Nat)
    (state : ChainState α) : Option (ChainState α) :=
  Loop.run (activatePass less valid connectTip) fuel state

end DSValue.Chain.BestChain

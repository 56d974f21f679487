import DSValue.Chain.CheckActiveChain

/-!
# Chains inside the tree

What every operation on the chains keeps, also when `CheckActiveChain` has
connected a block that had failed before: the active chain and the candidates
lie among the known indexes, and no candidate is there twice.
-/

namespace DSValue.Chain.Containment

open DSValue.Lib
open DSValue.Core.Serialize
open DSValue.Core.Header
open DSValue.Core.Transaction
open DSValue.Consensus.CheckLottoResult
open DSValue.Consensus.CheckBlock
open DSValue.Chain.BestChain
open DSValue.Chain.Selection
open DSValue.Chain.Activation
open DSValue.Chain.Passes
open DSValue.Chain.BlockIndex
open DSValue.Chain.CheckActiveChain

/-! ## The chains inside the tree -/

/-- The chains and the candidates lie among the known indexes. -/
structure Within
    (known : CBlockIndex → Prop) (chain : ChainState CBlock) : Prop where
  active : ∃ tip, chain.chainActive = some tip ∧ known tip
  candidates : ∀ pindex ∈ chain.setBlockIndexValid, known pindex
  distinct : chain.setBlockIndexValid.Nodup
  mostWork : ∀ tip, chain.chainMostWork = some tip → known tip

/-- The active chain stays, and candidates are only erased. -/
structure Shrinks (chain next : ChainState CBlock) : Prop where
  active : next.chainActive = chain.chainActive
  candidates : next.setBlockIndexValid.Sublist chain.setBlockIndexValid

variable {known : CBlockIndex → Prop} {genesis tip mostWork : CBlockIndex}
  {chain next found : ChainState CBlock}
  {less : CBlockIndex → CBlockIndex → Bool} {valid : CBlockIndex → Bool}
  {connectTip : CBlockIndex → Option Reject}

theorem Shrinks.refl (chain : ChainState CBlock) : Shrinks chain chain :=
  ⟨rfl, List.Sublist.refl _⟩

theorem Shrinks.trans
    {last : ChainState CBlock} (first : Shrinks chain next)
    (second : Shrinks next last) : Shrinks chain last :=
  ⟨second.active.trans first.active,
    second.candidates.trans first.candidates⟩

theorem shrinks_erase (chain : ChainState CBlock) (pindex : CBlockIndex) :
    Shrinks chain (chain.erase pindex) :=
  ⟨rfl, List.filter_sublist⟩

theorem Within.of_shrinks
    (within : Within known chain) (shrinks : Shrinks chain next)
    (mostWork : ∀ tip, next.chainMostWork = some tip → known tip) :
    Within known next where
  active := by
    rw [shrinks.active]
    exact within.active
  candidates := fun pindex member =>
    within.candidates pindex (shrinks.candidates.subset member)
  distinct := within.distinct.sublist shrinks.candidates
  mostWork := mostWork

/-! ## `ActivateBestChain` -/

theorem shrinks_dropFailedTips
    (chain : ChainState CBlock) (tip : CBlockIndex) :
    Shrinks chain (dropFailedTips chain tip) := by
  induction tip generalizing chain with
  | root block =>
      rw [dropFailedTips]
      split_ifs
      · exact ⟨rfl, List.filter_sublist⟩
      · exact ⟨rfl, List.Sublist.refl _⟩
  | child pprev block inductionHypothesis =>
      rw [dropFailedTips]
      split_ifs
      · exact (shrinks_erase chain _).trans (inductionHypothesis _)
      · exact ⟨rfl, List.Sublist.refl _⟩

theorem shrinks_removePath
    (pindexTest pindexNew : CBlockIndex) (chain : ChainState CBlock) :
    Shrinks chain (removePath pindexTest pindexNew chain) := by
  induction pindexNew generalizing chain with
  | root block =>
      rw [removePath]
      split_ifs
      · exact .refl chain
      · exact ⟨rfl, List.filter_sublist⟩
  | child pprev block inductionHypothesis =>
      rw [removePath]
      split_ifs
      · exact .refl chain
      · have marked :
            Shrinks chain (chain.markFailed (.child pprev block)) :=
          ⟨rfl, List.filter_sublist⟩
        exact marked.trans (inductionHypothesis _)

theorem Within.dropFailed
    (tree : Tree known genesis) (within : Within known chain) :
    Within known (dropFailed chain) := by
  rw [BestChain.dropFailed]
  cases isTip : chain.chainMostWork with
  | none => exact within
  | some tip =>
      refine within.of_shrinks (shrinks_dropFailedTips chain tip) ?_
      intro other isOther
      rcases (dropFailedTips_spec chain tip).mostWork with
        ⟨absent, -⟩ | ⟨last, isLast, below, -, -⟩
      · rw [absent] at isOther
        cases isOther
      · rw [isLast] at isOther
        cases isOther
        exact tree.closed tip other (within.mostWork tip isTip) below

theorem searchPass_keeps
    {search after : Search CBlock} {done : Bool}
    (pass : searchPass less valid search = some (after, done)) :
    Shrinks search.state after.state ∧
      after.state.chainMostWork = search.state.chainMostWork ∧
      ∀ pindex, after.pindexNew = some pindex →
        pindex ∈ search.state.setBlockIndexValid := by
  rw [searchPass] at pass
  split at pass
  · cases pass
    exact ⟨.refl _, rfl, by simp⟩
  next pindexNew isBest =>
    split_ifs at pass
    · cases pass
      exact ⟨shrinks_erase _ _, rfl, by simp⟩
    · split at pass
      · cases pass
        refine ⟨.refl _, rfl, ?_⟩
        rintro _ ⟨⟩
        exact Ranking.greatest?_mem isBest
      next pindexTest _ =>
        cases pass
        exact ⟨shrinks_removePath _ _ _, (removePath_chains _ _ _).2, by simp⟩

theorem Within.findMostWorkChain
    (tree : Tree known genesis) (within : Within known chain)
    (result : findMostWorkChain less valid chain = some found) :
    Within known found := by
  rw [BestChain.findMostWorkChain, Option.map_eq_some_iff] at result
  rcases result with ⟨search, ended, rfl⟩
  have keeps :
      Within known search.state ∧
        ∀ pindex, search.pindexNew = some pindex → known pindex := by
    have step :
        ∀ {before after : Search CBlock} {done : Bool},
          Within known before.state ∧
              (∀ pindex, before.pindexNew = some pindex → known pindex) →
            searchPass less valid before = some (after, done) →
            Within known after.state ∧
              ∀ pindex, after.pindexNew = some pindex → known pindex := by
      rintro before after done ⟨inside, -⟩ pass
      rcases searchPass_keeps pass with ⟨shrinks, same, isMember⟩
      refine ⟨inside.of_shrinks shrinks ?_, ?_⟩
      · rw [same]
        exact inside.mostWork
      · exact fun pindex isNew =>
          inside.candidates pindex (isMember pindex isNew)
    exact (Loop.ends_of_run ended).invariant _
      ⟨within.dropFailed tree, by simp⟩
      (fun _ _ => step) (fun _ _ => step)
  rw [improve]
  split
  · exact keeps.1
  next pindexNew isNew _ =>
    refine keeps.1.of_shrinks ⟨rfl, List.Sublist.refl _⟩ ?_
    rintro _ ⟨⟩
    exact keeps.2 pindexNew isNew
  next pindexNew tip isNew _ =>
    split_ifs
    · exact keeps.1
    · refine keeps.1.of_shrinks ⟨rfl, List.Sublist.refl _⟩ ?_
      rintro _ ⟨⟩
      exact keeps.2 pindexNew isNew

theorem shrinks_invalidBlockFound
    (chain : ChainState CBlock) (pindex : CBlockIndex) (reject : Reject) :
    Shrinks chain (invalidBlockFound chain pindex reject) ∧
      (invalidBlockFound chain pindex reject).chainMostWork =
        chain.chainMostWork := by
  rw [invalidBlockFound]
  split_ifs
  · exact ⟨.refl chain, rfl⟩
  · exact ⟨⟨rfl, List.filter_sublist⟩, rfl⟩

theorem Within.handleReject
    {pindex : CBlockIndex} {reject : Reject} {done : Bool}
    (tree : Tree known genesis) (within : Within known chain)
    (isKnown : known pindex)
    (result : handleReject chain pindex reject = some (next, done)) :
    Within known next := by
  rcases shrinks_invalidBlockFound chain pindex reject with ⟨shrinks, same⟩
  have keeps :
      ∀ tip,
        (invalidBlockFound chain pindex reject).chainMostWork = some tip →
          known tip := by
    rw [same]
    exact within.mostWork
  simp only [BestChain.handleReject] at result
  split_ifs at result with dirty
  · split at result
    · cases result
    next pprev parent =>
      cases result
      refine within.of_shrinks (shrinks.trans ⟨rfl, List.filter_sublist⟩) ?_
      rintro _ ⟨⟩
      rcases Lineage.eq_child_of_pprev? parent with ⟨block, rfl⟩
      exact tree.closed _ _ isKnown (Lineage.le_child pprev block)
  · cases result
    exact within.of_shrinks shrinks keeps

theorem Within.activatePass
    {done : Bool} (tree : Tree known genesis) (within : Within known chain)
    (pass : activatePass less valid connectTip chain = some (next, done)) :
    Within known next := by
  rw [BestChain.activatePass] at pass
  split at pass
  · cases pass
  next found isFound =>
    have inside := within.findMostWorkChain tree isFound
    split at pass
    · cases pass
      exact inside
    next mostWork isMostWork =>
      rcases inside.active with ⟨tip, isTip, tipKnown⟩
      have mostWorkKnown := inside.mostWork mostWork isMostWork
      rcases disconnectTips_spec (tree.rooted tip tipKnown)
          (tree.rooted mostWork mostWorkKnown) with
        ⟨fork, isFork, -, below, -⟩
      rcases connectTips_spec connectTip (mostWork.height + 1) below
          (by omega) with
        ⟨last, stopped, connected, reached⟩
      have moved :
          Within known { found with chainActive := some last } :=
        ⟨⟨last, rfl, tree.closed _ _ mostWorkKnown reached.below⟩,
          inside.candidates, inside.distinct, inside.mostWork⟩
      simp only [isTip, Option.bind_some, isFork, connected] at pass
      cases stopped with
      | none =>
          cases pass
          exact moved
      | some rejected =>
          rcases rejected with ⟨pindexConnect, reject⟩
          have onChain := (reached.blocked pindexConnect reject rfl).1
          exact moved.handleReject tree
            (tree.closed _ _ mostWorkKnown onChain) pass

theorem Within.activateBestChain
    {fuel : Nat} (tree : Tree known genesis) (within : Within known chain)
    (result :
      activateBestChain less valid connectTip fuel chain = some next) :
    Within known next :=
  (Loop.ends_of_run result).invariant (Within known) within
    (fun _ _ inside pass => inside.activatePass tree pass)
    (fun _ _ inside pass => inside.activatePass tree pass)

/-! ## `CheckActiveChain` -/

/-- The last common index of two chains. -/
structure IsFork (tip mostWork fork : CBlockIndex) : Prop where
  onTip : fork ≤ tip
  onMostWork : fork ≤ mostWork
  greatest : ∀ pindex ≤ tip, pindex ≤ mostWork → pindex ≤ fork

/-- What connecting from a fork up to an index changes. -/
structure Connected
    (fork last : CBlockIndex) (stopped : Option (CBlockIndex × Reject))
    (chain next : ChainState CBlock) : Prop where
  active : next.chainActive = some last
  mostWork : next.chainMostWork = chain.chainMostWork
  inserted :
    ∀ pindex ∈ next.setBlockIndexValid,
      pindex ∈ chain.setBlockIndexValid ∨ pindex ≤ last ∧ ¬ pindex ≤ fork
  kept :
    ∀ pindex ∈ chain.setBlockIndexValid,
      pindex ∈ next.setBlockIndexValid ∨
        ∃ reject, stopped = some (pindex, reject)
  distinct :
    chain.setBlockIndexValid.Nodup → next.setBlockIndexValid.Nodup

theorem Connected.refl
    {fork : CBlockIndex} {stopped : Option (CBlockIndex × Reject)}
    (isActive : chain.chainActive = some fork) :
    Connected fork fork stopped chain chain :=
  ⟨isActive, rfl, fun _ member => Or.inl member,
    fun _ member => Or.inl member, fun distinct => distinct⟩

theorem Connected.step
    {pprev last : CBlockIndex} {block : CBlock}
    {stopped : Option (CBlockIndex × Reject)}
    (above : .child pprev block ≤ last)
    (connected :
      Connected (.child pprev block) last stopped
        { chain with
          chainActive := some (.child pprev block)
          setBlockIndexValid :=
            chain.setBlockIndexValid.insert (.child pprev block) }
        next) :
    Connected pprev last stopped chain next where
  active := connected.active
  mostWork := connected.mostWork
  inserted := by
    intro pindex member
    rcases connected.inserted pindex member with earlier | ⟨under, higher⟩
    · rcases List.mem_insert_iff.mp earlier with rfl | old
      · exact Or.inr ⟨above, Lineage.not_child_le pprev block⟩
      · exact Or.inl old
    · refine Or.inr ⟨under, fun lower => higher ?_⟩
      exact lower.trans (Lineage.le_child pprev block)
  kept := fun pindex member =>
    connected.kept pindex (List.mem_insert_of_mem member)
  distinct := fun distinct => connected.distinct distinct.insert

theorem connectMostWork_spec
    {fork : CBlockIndex} (left : Nat)
    (isActive : chain.chainActive = some fork) (below : fork ≤ mostWork)
    (enough : mostWork.height < fork.height + left) :
    ∃ last stopped, Reached connectTip fork mostWork last stopped ∧
      Connected fork last stopped chain
        (connectMostWork connectTip mostWork left chain) := by
  induction left generalizing fork chain with
  | zero =>
      have height := Lineage.height_le_of_le below
      omega
  | succ left inductionHypothesis =>
      rw [connectMostWork, isActive, nextHeight]
      by_cases done : fork = mostWork
      · have ended : mostWork.at? (fork.height + 1) = none := by
          cases found : mostWork.at? (fork.height + 1) with
          | none => rfl
          | some pindex =>
              have inside := (Lineage.at?_height found).2
              rw [done] at inside
              omega
        simp only [ended]
        rw [done] at isActive ⊢
        exact ⟨mostWork, none, .whole mostWork, .refl isActive⟩
      · rcases Lineage.at?_succ_of_lt (lt_of_le_of_ne below done) with
          ⟨block, found, onChain⟩
        simp only [found]
        cases result : connectTip (.child fork block) with
        | none =>
            have moved :
                { chain with
                  chainActive := some (.child fork block)
                  setBlockIndexValid :=
                    chain.setBlockIndexValid.insert
                      (.child fork block) }.chainActive =
                  some (.child fork block) := rfl
            rcases inductionHypothesis moved onChain
                (by rw [Lineage.height_child]; omega) with
              ⟨last, stopped, reached, connected⟩
            exact ⟨last, stopped, .connect result reached,
              connected.step reached.above⟩
        | some reject =>
            refine ⟨fork, _, .stopped onChain result, ?_⟩
            dsimp only
            have shrinks :=
              shrinks_invalidBlockFound chain (.child fork block) reject
            refine ⟨shrinks.1.active.trans isActive, shrinks.2,
              fun pindex member => Or.inl (shrinks.1.candidates.subset member),
              ?_, fun distinct => distinct.sublist shrinks.1.candidates⟩
            intro pindex member
            by_cases same : pindex = .child fork block
            · exact Or.inr ⟨reject, by rw [same]⟩
            · rw [invalidBlockFound]
              split_ifs
              · exact Or.inl member
              · exact Or.inl (mem_markFailed.mpr ⟨member, same⟩)

/-- What is left of the candidates and where the active chain goes. -/
theorem settle_spec
    (connectTip : CBlockIndex → Option Reject) (tree : Tree known genesis) (tipKnown : known tip)
    (mostWorkKnown : known mostWork) (candidates : List CBlockIndex) :
    ∃ fork last stopped, IsFork tip mostWork fork ∧
      Reached connectTip fork mostWork last stopped ∧
      Connected fork last stopped
        { chain with
          setBlockIndexValid := candidates
          chainMostWork := some mostWork
          chainActive := some fork }
        (settle connectTip tip mostWork candidates chain) := by
  rcases disconnectTips_spec (tree.rooted tip tipKnown)
      (tree.rooted mostWork mostWorkKnown) with
    ⟨fork, isFork, onTip, onMostWork, greatest⟩
  rw [CheckActiveChain.settle, isFork]
  have isActive :
      { chain with
        setBlockIndexValid := candidates
        chainMostWork := some mostWork
        chainActive := some fork }.chainActive = some fork := rfl
  rcases connectMostWork_spec (mostWork.height + 1) isActive onMostWork
      (by omega) with
    ⟨last, stopped, reached, connected⟩
  exact ⟨fork, last, stopped, ⟨onTip, onMostWork, greatest⟩, reached,
    connected⟩

theorem Within.settle
    {candidates : List CBlockIndex}
    (tree : Tree known genesis) (within : Within known chain)
    (isActive : chain.chainActive = some tip)
    (mostWorkKnown : known mostWork)
    (shorter : candidates.Sublist chain.setBlockIndexValid) :
    Within known (settle connectTip tip mostWork candidates chain) := by
  obtain ⟨other, isOther, tipKnown⟩ := within.active
  rw [isActive] at isOther
  cases isOther
  rcases settle_spec connectTip tree tipKnown mostWorkKnown candidates with
    ⟨fork, last, stopped, -, reached, connected⟩
  have below : ∀ pindex ≤ last, known pindex := fun pindex under =>
    tree.closed _ _ mostWorkKnown (under.trans reached.below)
  refine ⟨⟨last, connected.active, below last le_rfl⟩, ?_,
    connected.distinct (within.distinct.sublist shorter), ?_⟩
  · intro pindex member
    rcases connected.inserted pindex member with earlier | ⟨under, -⟩
    · exact within.candidates pindex (shorter.subset earlier)
    · exact below pindex under
  · intro top isTop
    rw [connected.mostWork] at isTop
    cases isTop
    exact mostWorkKnown

theorem moveTip_cases (pIndexCheck pIndexTest chainMostWork : CBlockIndex) :
    moveTip pIndexCheck pIndexTest chainMostWork = chainMostWork ∨
      moveTip pIndexCheck pIndexTest chainMostWork = pIndexTest := by
  rw [moveTip]
  split_ifs
  · exact Or.inr rfl
  · exact Or.inl rfl

/-- The loop with a checkpoint erases candidates and moves to known tips. -/
theorem enforcePass_keeps
    {nHeight : Nat} {pcheckpoint : CBlockIndex} {loop after : Enforcement}
    {done : Bool}
    (pass : enforcePass less nHeight pcheckpoint loop = some (after, done)) :
    after.candidates.Sublist loop.candidates ∧
      (after.chainMostWork = loop.chainMostWork ∨
        after.chainMostWork ∈ loop.candidates) := by
  rw [enforcePass] at pass
  split at pass
  · cases pass
    exact ⟨List.Sublist.refl _, Or.inl rfl⟩
  next pIndexTest found =>
    have member : pIndexTest ∈ loop.candidates := Descending.current_mem found
    split_ifs at pass
    · cases pass
      exact ⟨List.Sublist.refl _, Or.inl rfl⟩
    · cases pass
      exact ⟨List.filter_sublist, Or.inl rfl⟩
    · cases pass
      exact ⟨List.Sublist.refl _, Or.inl rfl⟩
    · split at pass
      · cases pass
      next pIndexCheck isCheck =>
        split_ifs at pass
        · cases pass
          refine ⟨sweepPath_sublist _ _ _, Or.inl ?_⟩
          rw [moveTip]
          split_ifs with moves
          · exact Lineage.eq_of_le_of_height_le moves.1 moves.2.1.le
          · rfl
        · cases pass
          refine ⟨List.Sublist.refl _, ?_⟩
          rcases moveTip_cases pIndexCheck pIndexTest loop.chainMostWork with
            stays | moves
          · exact Or.inl stays
          · exact Or.inr (by rw [moves]; exact member)

theorem removePass_sublist
    {machine : Machine} {nHeight : Nat} {hash : Uint256}
    {sweep after : Sweep} {done : Bool}
    (pass :
      removePass machine less nHeight hash sweep = some (after, done)) :
    after.candidates.Sublist sweep.candidates := by
  rw [removePass] at pass
  split at pass
  · cases pass
    exact List.Sublist.refl _
  next current _ =>
    dsimp only at pass
    split_ifs at pass <;> cases pass
    · exact sweepPath_sublist _ _ _
    · exact List.Sublist.refl _

/-- What `CheckActiveChain` may do to a state. -/
theorem checkActiveChain_cases
    {machine : Machine} {checkpoints : Checkpoints} {nHeight : Int32}
    {hash : Uint256} {state after : TreeState}
    (within : Within (· ∈ state.mapBlockIndex) state.chain)
    (tree : Tree (· ∈ state.mapBlockIndex) genesis)
    (result :
      checkActiveChain machine checkpoints connectTip nHeight hash state =
        .ok after) :
    after = state ∨
      ∃ tip mostWork candidates,
        state.chain.chainActive = some tip ∧
        mostWork ∈ state.mapBlockIndex ∧
        candidates.Sublist state.chain.setBlockIndexValid ∧
        after =
          { state with
            chain :=
              settle connectTip tip mostWork candidates state.chain } := by
  rcases within.active with ⟨tip, isTip, tipKnown⟩
  rcases lt_or_ge nHeight.toInt 1 with early | positive
  · rw [CheckActiveChain.checkActiveChain, if_pos early] at result
    cases result
    exact Or.inl rfl
  cases same : hasHash machine tip nHeight.toInt.toNat hash with
  | true =>
      rw [checkActiveChain_of_hasHash positive isTip same] at result
      cases result
      exact Or.inl rfl
  | false =>
  cases isCheckpoint : getLastCheckpoint machine checkpoints state with
  | some pcheckpoint =>
    rw [checkActiveChain_of_checkpoint positive isTip same isCheckpoint,
      bind_eq_ok] at result
    rcases result with ⟨chain, enforced, isAfter⟩
    cases isAfter
    rw [enforceCheckpoint] at enforced
    split at enforced
    · cases enforced
    next loop ended =>
      cases enforced
      have keeps :
          loop.candidates.Sublist state.chain.setBlockIndexValid ∧
            loop.chainMostWork ∈ state.mapBlockIndex := by
        have step :
            ∀ {before later : Enforcement} {done : Bool},
              before.candidates.Sublist state.chain.setBlockIndexValid ∧
                  before.chainMostWork ∈ state.mapBlockIndex →
                enforcePass
                    (blockIndexWorkComparator (state.fields machine))
                    nHeight.toInt.toNat pcheckpoint before =
                  some (later, done) →
                later.candidates.Sublist state.chain.setBlockIndexValid ∧
                  later.chainMostWork ∈ state.mapBlockIndex := by
          rintro before later done ⟨shorter, isKnown⟩ pass
          rcases enforcePass_keeps pass with ⟨erased, stays | moves⟩
          · exact ⟨erased.trans shorter, by rw [stays]; exact isKnown⟩
          · exact ⟨erased.trans shorter,
              within.candidates _ (shorter.subset moves)⟩
        exact (Loop.ends_of_run ended).invariant _
          ⟨List.Sublist.refl _, getLastCheckpoint_mem isCheckpoint⟩
          (fun _ _ => step) (fun _ _ => step)
      exact Or.inr ⟨tip, _, _, isTip, keeps.2, keeps.1, rfl⟩
  | none =>
    rw [checkActiveChain_of_none positive isTip same isCheckpoint] at result
    split_ifs at result with absent
    · cases result
      exact Or.inl rfl
    rw [bind_eq_ok] at result
    rcases result with ⟨chain, removed, isAfter⟩
    cases isAfter
    rw [removeBlock] at removed
    split at removed
    · cases removed
    · cases removed
    next sweep pprev ended isPprev =>
      cases removed
      have shorter :
          sweep.candidates.Sublist state.chain.setBlockIndexValid :=
        (Loop.ends_of_run ended).invariant
          (fun sweep =>
            sweep.candidates.Sublist state.chain.setBlockIndexValid)
          (List.Sublist.refl _)
          (fun _ _ shorter pass => (removePass_sublist pass).trans shorter)
          (fun _ _ shorter pass => (removePass_sublist pass).trans shorter)
      exact Or.inr ⟨tip, pprev, _, isTip,
        tree.closed _ _ tipKnown (Lineage.le_of_at? isPprev), shorter, rfl⟩

end DSValue.Chain.Containment

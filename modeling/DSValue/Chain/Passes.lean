import DSValue.Chain.Activation

/-!
# The passes of `ActivateBestChain`

What one pass of the loop does, and the invariant that links the active chain,
the chain with the most work and the failed indexes between calls.
-/

namespace DSValue.Chain.Passes

open DSValue.Lib
open DSValue.Consensus.CheckLottoResult
open DSValue.Chain.BestChain
open DSValue.Chain.Selection
open DSValue.Chain.Activation

variable {α : Type} [DecidableEq α]
  {less : Lineage α → Lineage α → Bool} {valid : Lineage α → Bool}
  {state found : ChainState α} {genesis : Lineage α}

/-! ## The outcomes of `ConnectTip` -/

/-- The kinds of rejections that block validation ends with. -/
inductive RejectKind where
  | invalid
  | invalidLotto
  | dirtyBlock
deriving DecidableEq

/--
The lottery rejections may be due to a corrupted or incomplete view, all
others are final.
-/
def kindOf (reject : Reject) : Option RejectKind :=
  if reject.chRejectCode = .invalidLotto then
    if reject.corruptionPossible then some .invalidLotto else none
  else if reject.chRejectCode = .dirtyBlock then
    if reject.corruptionPossible then some .dirtyBlock else none
  else if reject.corruptionPossible then none
  else some .invalid

/-- What `ConnectTip` answers for each block on its parent chain. -/
structure Outcomes (α : Type) where
  connectTip : Lineage α → Option Reject
  kinds :
    ∀ pindex reject, connectTip pindex = some reject →
      ∃ kind, kindOf reject = some kind

/-- The kind of rejection that a block meets, if any. -/
def Outcomes.kind (outcomes : Outcomes α) (pindex : Lineage α) :
    Option RejectKind :=
  (outcomes.connectTip pindex).bind kindOf

theorem handleReject_invalid
    {pindex : Lineage α} {reject : Reject}
    (kind : kindOf reject = some .invalid) :
    handleReject state pindex reject =
      some (state.markFailed pindex, false) := by
  rw [kindOf] at kind
  split_ifs at kind with lotto corrupt dirty corrupt final <;> cases kind
  simp [handleReject, invalidBlockFound, lotto, dirty, final]

theorem handleReject_invalidLotto
    {pindex : Lineage α} {reject : Reject}
    (kind : kindOf reject = some .invalidLotto) :
    handleReject state pindex reject = some (state, true) := by
  rw [kindOf] at kind
  split_ifs at kind with lotto corrupt <;> cases kind
  simp [handleReject, invalidBlockFound, lotto, corrupt]

theorem handleReject_dirtyBlock
    {pindex pprev : Lineage α} {reject : Reject}
    (kind : kindOf reject = some .dirtyBlock)
    (parent : pindex.pprev? = some pprev) :
    handleReject state pindex reject =
      some ({ state.erase pindex with chainMostWork := some pprev },
        false) := by
  rw [kindOf] at kind
  split_ifs at kind with lotto _ dirty corrupt <;> cases kind
  simp [handleReject, invalidBlockFound, dirty, corrupt, parent]

/-! ## Choosing the chain -/

/-- The result of `FindMostWorkChain` on a state without failed tips. -/
structure Chosen
    (less : Lineage α → Lineage α → Bool) (valid : Lineage α → Bool)
    (start found : ChainState α) : Prop where
  cleaned :
    Cleaned valid start
      { found with chainMostWork := start.chainMostWork }
  best :
    ∀ pindexNew,
      Ranking.greatest? less found.setBlockIndexValid = some pindexNew →
        Candidate valid found pindexNew
  mostWork :
    (found.chainMostWork = start.chainMostWork ∧
        ∀ pindexNew,
          Ranking.greatest? less found.setBlockIndexValid = some pindexNew →
            ∃ tip, start.chainMostWork = some tip ∧
              less tip pindexNew = false) ∨
      ∃ pindexNew, found.chainMostWork = some pindexNew ∧
        Ranking.greatest? less found.setBlockIndexValid = some pindexNew ∧
        ∀ tip, start.chainMostWork = some tip → less tip pindexNew = true

theorem findMostWorkChain_spec
    (less : Lineage α → Lineage α → Bool) (valid : Lineage α → Bool)
    (apart : Apart (dropFailed state)) :
    ∃ found, findMostWorkChain less valid state = some found ∧
      Chosen less valid (dropFailed state) found := by
  rcases searchCandidate_spec apart less valid with ⟨search, ended, result⟩
  refine ⟨improve less search, by rw [findMostWorkChain, ended]; rfl, ?_⟩
  have mostWork := result.cleaned.mostWork
  have restored :
      ∀ tip, Cleaned valid (dropFailed state)
        { { search.state with chainMostWork := tip } with
          chainMostWork := (dropFailed state).chainMostWork } := by
    intro tip
    have same :
        { search.state with
          chainMostWork := (dropFailed state).chainMostWork } =
          search.state := by
      rw [← mostWork]
    exact same ▸ result.cleaned
  have candidate :
      ∀ tip pindexNew,
        Ranking.greatest? less search.state.setBlockIndexValid =
            some pindexNew →
          Candidate valid { search.state with chainMostWork := tip }
            pindexNew := by
    intro tip pindexNew isBest
    rw [← result.best] at isBest
    rcases result.candidate pindexNew isBest with ⟨member, isValid, free⟩
    exact ⟨member, isValid, free⟩
  rw [improve]
  split
  next none =>
    refine ⟨restored _, candidate search.state.chainMostWork,
      Or.inl ⟨mostWork, ?_⟩⟩
    intro pindexNew isBest
    rw [← result.best, none] at isBest
    cases isBest
  next pindexNew some noTip =>
    refine ⟨restored _, candidate _, Or.inr ⟨pindexNew, rfl, ?_, ?_⟩⟩
    · rw [← some]
      exact result.best.symm
    · intro tip isTip
      rw [← mostWork, noTip] at isTip
      cases isTip
  next pindexNew tip some isTip =>
    split_ifs with worse
    · refine ⟨restored _, candidate search.state.chainMostWork,
        Or.inl ⟨mostWork, ?_⟩⟩
      intro other isBest
      rw [← result.best, some] at isBest
      cases isBest
      exact ⟨tip, by rw [← mostWork]; exact isTip, worse⟩
    · refine ⟨restored _, candidate _, Or.inr ⟨pindexNew, rfl, ?_, ?_⟩⟩
      · rw [← some]
        exact result.best.symm
      · intro other isOther
        rw [← mostWork, isTip] at isOther
        cases isOther
        simpa using worse

/-- One pass of the loop, once the chain is chosen and attempted. -/
theorem activatePass_eq
    {connectTip : Lineage α → Option Reject}
    {active mostWork last : Lineage α}
    {stopped : Option (Lineage α × Reject)}
    (chosen : findMostWorkChain less valid state = some found)
    (tip : found.chainMostWork = some mostWork)
    (isActive : found.chainActive = some active)
    (attempt :
      connectTips connectTip mostWork (mostWork.height + 1)
        (disconnectTips mostWork active) = (some last, stopped)) :
    activatePass less valid connectTip state =
      finishPass { found with chainActive := some last } stopped := by
  rw [activatePass]
  simp only [chosen, tip, isActive, Option.bind_some, attempt]

/-! ## The invariant -/

/-- The indexes of one tree. -/
structure Tree (known : Lineage α → Prop) (genesis : Lineage α) : Prop where
  closed : ∀ pindex ancestor, known pindex → ancestor ≤ pindex → known ancestor
  rooted : ∀ pindex, known pindex → genesis ≤ pindex

/-- The state between calls. -/
structure Sound (known : Lineage α → Prop) (state : ChainState α) : Prop where
  apart : Apart state
  active : ∃ tip, state.chainActive = some tip ∧ known tip
  candidates : ∀ pindex ∈ state.setBlockIndexValid, known pindex
  failures : ∀ pindex ∈ state.failed, known pindex
  mostWork :
    ∀ tip, state.chainMostWork = some tip → known tip ∧ Free state tip

/-- The chosen tip waits behind a block that has just been found invalid. -/
structure Pending
    (outcomes : Outcomes α) (state : ChainState α)
    (mostWork blocked : Lineage α) : Prop where
  below : blocked ≤ mostWork
  parent : blocked.pprev? = state.chainActive
  kind : outcomes.kind blocked = some .invalid
  failed :
    ∀ pindex ≤ mostWork, pindex ∈ state.failed → blocked ≤ pindex

/-- The state between the passes of a call. -/
structure Underway
    (known : Lineage α → Prop) (outcomes : Outcomes α)
    (state : ChainState α) : Prop where
  apart : Apart state
  active : ∃ tip, state.chainActive = some tip ∧ known tip
  candidates : ∀ pindex ∈ state.setBlockIndexValid, known pindex
  failures : ∀ pindex ∈ state.failed, known pindex
  mostWork :
    ∀ tip, state.chainMostWork = some tip →
      known tip ∧
        (Free state tip ∨ ∃ blocked, Pending outcomes state tip blocked)

section Invariant

variable {known : Lineage α → Prop} {outcomes : Outcomes α}

omit [DecidableEq α] in
theorem Sound.underway (sound : Sound known state) :
    Underway known outcomes state where
  apart := sound.apart
  active := sound.active
  candidates := sound.candidates
  failures := sound.failures
  mostWork := fun tip isTip =>
    ⟨(sound.mostWork tip isTip).1, Or.inl (sound.mostWork tip isTip).2⟩

omit [DecidableEq α] in
theorem kind_eq_some
    {pindex : Lineage α} {kind : RejectKind}
    (isKind : outcomes.kind pindex = some kind) :
    ∃ reject, outcomes.connectTip pindex = some reject ∧
      kindOf reject = some kind :=
  Option.bind_eq_some_iff.mp isKind

/-- Leaving failed tips behind ends at the active chain at the latest. -/
theorem Underway.dropFailed
    (tree : Tree known genesis) (underway : Underway known outcomes state) :
    Underway known outcomes (dropFailed state) := by
  cases mostWork : state.chainMostWork with
  | none =>
      have same : BestChain.dropFailed state = state := by
        rw [BestChain.dropFailed, mostWork]
      rw [same]
      exact underway
  | some tip =>
      rcases underway.mostWork tip mostWork with ⟨isKnown, free | pending⟩
      · rw [dropFailed_of_fine mostWork (free tip le_rfl)]
        exact underway
      · rcases pending with ⟨blocked, pending⟩
        have dropped := dropFailedTips_spec state tip
        have equation :
            BestChain.dropFailed state = dropFailedTips state tip := by
          rw [BestChain.dropFailed, mostWork]
        rw [equation]
        rcases underway.active with ⟨active, isActive, activeKnown⟩
        have parent : blocked.pprev? = some active := by
          rw [pending.parent, isActive]
        rcases Lineage.eq_child_of_pprev? parent with ⟨item, rfl⟩
        have activeFree := underway.apart.active active isActive
        have onTip : active ≤ tip :=
          (Lineage.le_child active item).trans pending.below
        constructor
        case apart => exact dropped.apart underway.apart
        case active =>
          exact ⟨active, by rw [dropped.active, isActive], activeKnown⟩
        case candidates =>
          intro pindex member
          exact underway.candidates pindex (dropped.members pindex member)
        case failures =>
          intro pindex failed
          rw [dropped.failed] at failed
          exact underway.failures pindex failed
        case mostWork =>
          intro last isLast
          rcases dropped.mostWork with
            ⟨gone, -⟩ | ⟨found, isFound, below, -, above⟩
          · rw [gone] at isLast
            cases isLast
          · rw [isFound] at isLast
            cases isLast
            refine ⟨tree.closed tip last isKnown below, ?_⟩
            have overActive : active ≤ last := by
              by_contra outside
              exact activeFree active le_rfl (above active onTip outside)
            rcases Lineage.le_total_of_le below pending.below with
              lower | upper
            · rcases Lineage.le_child_iff.mp lower with equal | under
              · right
                refine ⟨.child active item, equal.ge, ?_, pending.kind, ?_⟩
                · rw [dropped.active]
                  exact pending.parent
                · intro pindex inside failed
                  rw [dropped.failed] at failed
                  exact pending.failed pindex (inside.trans below) failed
              · left
                rw [le_antisymm under overActive]
                intro ancestor inside failed
                rw [dropped.failed] at failed
                exact activeFree ancestor inside failed
            · right
              refine ⟨.child active item, upper, ?_, pending.kind, ?_⟩
              · rw [dropped.active]
                exact pending.parent
              · intro pindex inside failed
                rw [dropped.failed] at failed
                exact pending.failed pindex (inside.trans below) failed

omit [DecidableEq α] in
/-- Choosing a chain keeps the invariant. -/
theorem Underway.chosen
    (tree : Tree known genesis) (underway : Underway known outcomes state)
    (chosen : Chosen less valid state found) :
    Underway known outcomes found := by
  have cleaned := chosen.cleaned
  have apart := cleaned.isApart underway.apart
  constructor
  case apart => exact ⟨apart.candidates, apart.active⟩
  case active =>
    rcases underway.active with ⟨active, isActive, activeKnown⟩
    exact ⟨active, cleaned.active.trans isActive, activeKnown⟩
  case candidates =>
    intro pindex member
    exact underway.candidates pindex (cleaned.members pindex member)
  case failures =>
    intro pindex failed
    rcases cleaned.within pindex failed with before | ⟨top, member, below⟩
    · exact underway.failures pindex before
    · exact tree.closed top pindex (underway.candidates top member) below
  case mostWork =>
    intro tip isTip
    rcases chosen.mostWork with ⟨kept, -⟩ | ⟨best, isBest, greatest, -⟩
    · rw [kept] at isTip
      rcases underway.mostWork tip isTip with ⟨isKnown, free | pending⟩
      · exact ⟨isKnown, Or.inl (cleaned.free free)⟩
      · rcases pending with ⟨blocked, pending⟩
        refine ⟨isKnown, Or.inr ⟨blocked, pending.below, ?_, pending.kind, ?_⟩⟩
        · exact pending.parent.trans cleaned.active.symm
        · intro pindex below failed
          rcases cleaned.caused pindex failed with
            ⟨cause, under, before, -⟩
          exact (pending.failed cause (under.trans below) before).trans under
    · rw [isBest] at isTip
      cases isTip
      have candidate := chosen.best tip greatest
      exact ⟨underway.candidates tip (cleaned.members tip candidate.member),
        Or.inl candidate.free⟩

omit [DecidableEq α] in
/-- Moving the active chain below a tip without failures. -/
theorem Underway.move
    {tip last : Lineage α} (tree : Tree known genesis)
    (underway : Underway known outcomes state)
    (isTip : state.chainMostWork = some tip) (free : Free state tip)
    (below : last ≤ tip) :
    Sound known { state with chainActive := some last } := by
  have isKnown := (underway.mostWork tip isTip).1
  constructor
  case apart =>
    refine ⟨underway.apart.candidates, ?_⟩
    rintro _ ⟨⟩ ancestor inside
    exact free ancestor (inside.trans below)
  case active => exact ⟨last, rfl, tree.closed tip last isKnown below⟩
  case candidates => exact underway.candidates
  case failures => exact underway.failures
  case mostWork =>
    intro other isOther
    rw [isTip] at isOther
    cases isOther
    exact ⟨isKnown, free⟩

theorem Sound.dirtyBlock
    {blocked last : Lineage α} (sound : Sound known state)
    (isActive : state.chainActive = some last) :
    Sound known
      { state.erase blocked with chainMostWork := some last } := by
  rcases sound.active with ⟨active, same, isKnown⟩
  rw [isActive] at same
  cases same
  constructor
  case apart =>
    refine ⟨?_, sound.apart.active⟩
    intro pindex member
    exact sound.apart.candidates pindex (mem_erase.mp member).1
  case active => exact ⟨last, isActive, isKnown⟩
  case candidates =>
    intro pindex member
    exact sound.candidates pindex (mem_erase.mp member).1
  case failures => exact sound.failures
  case mostWork =>
    rintro _ ⟨⟩
    exact ⟨isKnown, sound.apart.active last isActive⟩

/-- A block found invalid leaves the chosen tip pending. -/
theorem invalid_underway
    {tip blocked last : Lineage α} (tree : Tree known genesis)
    (apart : Apart state) (lastKnown : known last) (tipKnown : known tip)
    (candidates : ∀ pindex ∈ state.setBlockIndexValid, known pindex)
    (failures : ∀ pindex ∈ state.failed, known pindex)
    (isActive : state.chainActive = some last)
    (isTip : state.chainMostWork = some tip) (onChain : blocked ≤ tip)
    (parent : blocked.pprev? = some last)
    (kind : outcomes.kind blocked = some .invalid)
    (failed : ∀ pindex ≤ tip, pindex ∈ state.failed → blocked ≤ pindex) :
    Underway known outcomes (state.markFailed blocked) := by
  rcases Lineage.eq_child_of_pprev? parent with ⟨item, rfl⟩
  constructor
  case apart =>
    constructor
    · intro pindex member isFailed
      rcases mem_markFailed.mp member with ⟨before, different⟩
      rcases mem_failed_markFailed.mp isFailed with same | earlier
      · exact different same
      · exact apart.candidates pindex before earlier
    · intro active same ancestor inside isFailed
      have equal : some last = some active := isActive.symm.trans same
      cases equal
      rcases mem_failed_markFailed.mp isFailed with rfl | earlier
      · exact Lineage.not_child_le last item inside
      · exact apart.active last isActive ancestor inside earlier
  case active => exact ⟨last, isActive, lastKnown⟩
  case candidates =>
    intro pindex member
    exact candidates pindex (mem_markFailed.mp member).1
  case failures =>
    intro pindex isFailed
    rcases mem_failed_markFailed.mp isFailed with rfl | earlier
    · exact tree.closed tip _ tipKnown onChain
    · exact failures pindex earlier
  case mostWork =>
    intro other isOther
    have equal : some tip = some other := isTip.symm.trans isOther
    cases equal
    refine ⟨tipKnown, Or.inr ⟨.child last item, onChain, ?_, kind, ?_⟩⟩
    · exact parent.trans isActive.symm
    · intro pindex inside isFailed
      rcases mem_failed_markFailed.mp isFailed with rfl | earlier
      · exact le_rfl
      · exact failed pindex inside earlier

/-- Every pass keeps the invariant, and the last one restores it fully. -/
theorem Underway.pass
    {next : ChainState α} {done : Bool} (tree : Tree known genesis)
    (underway : Underway known outcomes state)
    (result :
      activatePass less valid outcomes.connectTip state =
        some (next, done)) :
    if done then Sound known next else Underway known outcomes next := by
  have dropped := underway.dropFailed tree
  rcases findMostWorkChain_spec less valid dropped.apart with
    ⟨found, equation, chosen⟩
  have onWay := dropped.chosen tree chosen
  cases mostWork : found.chainMostWork with
  | none =>
      simp only [activatePass, equation, mostWork] at result
      cases result
      refine ⟨onWay.apart, onWay.active, onWay.candidates, onWay.failures, ?_⟩
      intro tip isTip
      rw [mostWork] at isTip
      cases isTip
  | some tip =>
      rcases onWay.active with ⟨active, isActive, activeKnown⟩
      rcases onWay.mostWork tip mostWork with ⟨tipKnown, free | pending⟩
      · rcases disconnectTips_spec (tree.rooted active activeKnown)
            (tree.rooted tip tipKnown) with
          ⟨fork, disconnected, -, onTip, -⟩
        rcases connectTips_spec outcomes.connectTip (tip.height + 1) onTip
            (by omega) with ⟨last, stopped, connected, reached⟩
        rw [← disconnected] at connected
        rw [activatePass_eq equation mostWork isActive connected] at result
        have moved := onWay.move tree mostWork free reached.below
        cases stopped with
        | none =>
            cases result
            exact moved
        | some blockedBy =>
            rcases blockedBy with ⟨blocked, reject⟩
            rcases reached.blocked blocked reject rfl with
              ⟨onChain, parent, rejected⟩
            rw [finishPass] at result
            rcases outcomes.kinds blocked reject rejected with ⟨kind, isKind⟩
            have blockedKind : outcomes.kind blocked = some kind := by
              rw [Outcomes.kind, rejected, Option.bind_some, isKind]
            cases kind with
            | invalid =>
                rw [handleReject_invalid isKind] at result
                cases result
                refine invalid_underway tree moved.apart
                  (tree.closed tip last tipKnown reached.below) tipKnown
                  moved.candidates moved.failures rfl mostWork onChain parent
                  blockedKind ?_
                intro pindex inside failed
                exact absurd failed (free pindex inside)
            | invalidLotto =>
                rw [handleReject_invalidLotto isKind] at result
                cases result
                exact moved
            | dirtyBlock =>
                rw [handleReject_dirtyBlock isKind parent] at result
                cases result
                exact (moved.dirtyBlock rfl).underway
      · rcases pending with ⟨blocked, pending⟩
        rcases kind_eq_some pending.kind with ⟨reject, rejected, isKind⟩
        have parent : blocked.pprev? = some active := by
          rw [pending.parent, isActive]
        have attempt := attempt_of_blocked pending.below parent rejected
        rw [activatePass_eq equation mostWork isActive attempt, finishPass,
          handleReject_invalid isKind] at result
        cases result
        have same :
            { found with chainActive := some active } = found := by
          rw [← isActive]
        rw [same]
        exact invalid_underway tree onWay.apart activeKnown tipKnown
          onWay.candidates onWay.failures isActive mostWork pending.below
          parent pending.kind pending.failed

/-- Every call that returns keeps the invariant. -/
theorem Sound.activateBestChain
    {next : ChainState α} {fuel : Nat} (tree : Tree known genesis)
    (sound : Sound known state)
    (result :
      BestChain.activateBestChain less valid outcomes.connectTip fuel state =
        some next) :
    Sound known next := by
  apply (Loop.ends_of_run result).invariant (Underway known outcomes)
    sound.underway
  · intro before after underway pass
    exact underway.pass tree pass
  · intro before after underway pass
    exact underway.pass tree pass

end Invariant

end DSValue.Chain.Passes

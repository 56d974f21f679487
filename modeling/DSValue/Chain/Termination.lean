import DSValue.Chain.Passes

/-!
# When `ActivateBestChain` comes to an end

A candidate halts the loop when all its blocks connect, or when the first one
that does not is rejected with `REJECT_INVALID_LOTTO`.  The loop ends when
every candidate that outranks it is removed by its own failure: by an invalid
block, which marks all candidates behind it, or by being the dirty block
itself.
-/

namespace DSValue.Chain.Termination

open DSValue.Lib
open DSValue.Consensus.CheckLottoResult
open DSValue.Chain.BestChain
open DSValue.Chain.Selection
open DSValue.Chain.Activation
open DSValue.Chain.Passes

variable {α ρ : Type} [DecidableEq α] [LinearOrder ρ]
  {less : Lineage α → Lineage α → Bool} {valid : Lineage α → Bool}
  {rank : Lineage α → ρ} {known : Lineage α → Prop} {outcomes : Outcomes α}
  {state found next : ChainState α}
  {genesis oldTip tip active last blocked pindex : Lineage α}

/-! ## Candidates that halt the loop and candidates that give way -/

/-- The comparator is the order of a rank. -/
structure Ranks
    (less : Lineage α → Lineage α → Bool) (rank : Lineage α → ρ) :
    Prop where
  less_iff :
    ∀ first second, less first second = true ↔ rank first < rank second
  injective : Function.Injective rank

/-- `chainMostWork` outranks every candidate. -/
structure Leads
    (valid : Lineage α → Bool) (rank : Lineage α → ρ)
    (state : ChainState α) (pindex : Lineage α) : Prop where
  mostWork : state.chainMostWork = some pindex
  above : ∀ other, Candidate valid state other → rank other < rank pindex

/-- The loop stops at this candidate. -/
def Halts
    (outcomes : Outcomes α) (oldTip pindex : Lineage α) : Prop :=
  Connectable outcomes.connectTip oldTip pindex ∨
    ∃ blocked, FirstBlocked outcomes.connectTip oldTip pindex blocked ∧
      outcomes.kind blocked = some .invalidLotto

/-- The failure of a candidate removes it from the candidates. -/
def GivesWay
    (outcomes : Outcomes α) (oldTip pindex : Lineage α) : Prop :=
  ∃ blocked, FirstBlocked outcomes.connectTip oldTip pindex blocked ∧
    (outcomes.kind blocked = some .invalid ∨
      outcomes.kind blocked = some .dirtyBlock ∧ blocked = pindex)

/-- The failure of a leading `chainMostWork` replaces it. -/
def LeadGivesWay
    (outcomes : Outcomes α) (oldTip pindex : Lineage α) : Prop :=
  ∃ blocked, FirstBlocked outcomes.connectTip oldTip pindex blocked ∧
    (outcomes.kind blocked = some .dirtyBlock ∨
      outcomes.kind blocked = some .invalid ∧ blocked = pindex)

/-- The index lies behind all blocks that would not connect again. -/
def KeepsStale
    (outcomes : Outcomes α) (oldTip pindex : Lineage α) : Prop :=
  ∀ stale, Stale outcomes.connectTip oldTip stale → stale ≤ pindex

/-- A candidate that the loop stops at, or does not need to reach. -/
structure Decisive
    (valid : Lineage α → Bool) (rank : Lineage α → ρ)
    (outcomes : Outcomes α) (state : ChainState α)
    (oldTip pindex : Lineage α) : Prop where
  selectable : Candidate valid state pindex ∨ Leads valid rank state pindex
  halts : Halts outcomes oldTip pindex
  outranked :
    ∀ other, Candidate valid state other → rank pindex < rank other →
      GivesWay outcomes oldTip other ∧ KeepsStale outcomes oldTip other
  led :
    ∀ other, Leads valid rank state other → rank pindex < rank other →
      LeadGivesWay outcomes oldTip other ∧ KeepsStale outcomes oldTip other

/-- Where the active chain ends up. -/
def EndsWell
    (rank : Lineage α → ρ) (outcomes : Outcomes α)
    (oldTip pindex last : Lineage α) : Prop :=
  rank pindex ≤ rank last ∨
    ∃ blocked, FirstBlocked outcomes.connectTip oldTip pindex blocked ∧
      outcomes.kind blocked = some .invalidLotto ∧
      blocked.pprev? = some last

/-! ## The chosen chain -/

theorem dropFailed_of_sound (sound : Sound known state) :
    dropFailed state = state := by
  cases mostWork : state.chainMostWork with
  | none => rw [dropFailed, mostWork]
  | some tip =>
      exact dropFailed_of_fine mostWork
        ((sound.mostWork tip mostWork).2 tip le_rfl)

theorem chosen_of_sound
    (less : Lineage α → Lineage α → Bool) (valid : Lineage α → Bool)
    (sound : Sound known state) :
    ∃ found, findMostWorkChain less valid state = some found ∧
      Chosen less valid state found := by
  have same := dropFailed_of_sound sound
  have apart : Apart (dropFailed state) := by
    rw [same]
    exact sound.apart
  have spec := findMostWorkChain_spec less valid apart
  rw [same] at spec
  exact spec

theorem candidate_found
    (chosen : Chosen less valid state found) :
    Candidate valid found pindex ↔ Candidate valid state pindex := by
  rw [← chosen.cleaned.candidate_iff]
  constructor
  · rintro ⟨member, isValid, free⟩
    exact ⟨member, isValid, free⟩
  · rintro ⟨member, isValid, free⟩
    exact ⟨member, isValid, free⟩

omit [DecidableEq α] in
theorem rank_le_best
    (ranks : Ranks less rank) {values : List (Lineage α)}
    (best : Ranking.greatest? less values = some tip) :
    ∀ other ∈ values, rank other ≤ rank tip := by
  apply Ranking.rank_le_greatest? _ _ best
  · intro first second smaller
    exact ((ranks.less_iff first second).mp smaller).le
  · intro first second smaller
    by_contra greater
    rw [not_le, ← ranks.less_iff] at greater
    simp [greater] at smaller

/-- The best candidate is chosen unless `chainMostWork` outranks it. -/
theorem target_best
    (ranks : Ranks less rank) (chosen : Chosen less valid state found)
    (candidate : Candidate valid state tip)
    (best : ∀ other, Candidate valid state other → rank other ≤ rank tip)
    (mostWork :
      ∀ other, state.chainMostWork = some other →
        rank other ≤ rank tip) :
    found.chainMostWork = some tip ∧
      Ranking.greatest? less found.setBlockIndexValid = some tip := by
  have inFound := (candidate_found chosen).mpr candidate
  have isBest :
      Ranking.greatest? less found.setBlockIndexValid = some tip := by
    cases greatest : Ranking.greatest? less found.setBlockIndexValid with
    | none =>
        have member := inFound.member
        rw [Ranking.greatest?_eq_none.mp greatest] at member
        cases member
    | some other =>
        have otherCandidate := chosen.best other greatest
        have lower := best other ((candidate_found chosen).mp otherCandidate)
        have upper := rank_le_best ranks greatest tip inFound.member
        rw [ranks.injective (le_antisymm lower upper)]
  refine ⟨?_, isBest⟩
  rcases chosen.mostWork with ⟨kept, worse⟩ | ⟨other, isOther, greatest, -⟩
  · rcases worse tip isBest with ⟨other, isOther, notLess⟩
    have lower := mostWork other isOther
    have upper : rank tip ≤ rank other := by
      by_contra greater
      rw [not_le, ← ranks.less_iff] at greater
      simp [greater] at notLess
    rw [kept, isOther, ranks.injective (le_antisymm lower upper)]
  · rw [isBest] at greatest
    cases greatest
    exact isOther

/-- `chainMostWork` stays when it outranks the candidates. -/
theorem target_kept
    (ranks : Ranks less rank) (chosen : Chosen less valid state found)
    (mostWork : state.chainMostWork = some tip)
    (above :
      ∀ other, Candidate valid state other → rank other ≤ rank tip) :
    found.chainMostWork = some tip := by
  rcases chosen.mostWork with ⟨kept, -⟩ | ⟨other, isOther, greatest, better⟩
  · rw [kept, mostWork]
  · have candidate :=
      (candidate_found chosen).mp (chosen.best other greatest)
    have lower := (ranks.less_iff tip other).mp (better tip mostWork)
    exact absurd (above other candidate) (not_le_of_gt lower)

/-! ## One attempt -/

/-- The body of the loop. -/
def body
    (less : Lineage α → Lineage α → Bool) (valid : Lineage α → Bool)
    (outcomes : Outcomes α) :
    ChainState α → Option (ChainState α × Bool) :=
  activatePass less valid outcomes.connectTip

/-- The state in front of a pass, with its active tip. -/
structure Started
    (known : Lineage α → Prop) (outcomes : Outcomes α)
    (genesis oldTip : Lineage α) (state : ChainState α)
    (active : Lineage α) : Prop where
  sound : Sound known state
  isActive : state.chainActive = some active
  onWay : OnWay outcomes.connectTip genesis oldTip active

/-- The pass that attempts a chosen tip. -/
structure Attempted
    (less : Lineage α → Lineage α → Bool) (valid : Lineage α → Bool)
    (known : Lineage α → Prop) (outcomes : Outcomes α)
    (genesis oldTip : Lineage α) (state found : ChainState α)
    (tip last : Lineage α) (stopped : Option (Lineage α × Reject)) :
    Prop where
  attempt : Attempt outcomes.connectTip genesis oldTip tip last stopped
  pass :
    body less valid outcomes state =
      finishPass { found with chainActive := some last } stopped
  moved : Sound known { found with chainActive := some last }

theorem attempted
    (tree : Tree known genesis)
    (started : Started known outcomes genesis oldTip state active)
    (equation : findMostWorkChain less valid state = some found)
    (chosen : Chosen less valid state found)
    (isTip : found.chainMostWork = some tip) :
    ∃ last stopped, Attempted less valid known outcomes genesis oldTip state
      found tip last stopped := by
  have underway : Underway known outcomes found :=
    started.sound.underway.chosen tree chosen
  have isActive : found.chainActive = some active :=
    chosen.cleaned.active.trans started.isActive
  have tipKnown := (underway.mostWork tip isTip).1
  have free : Free found tip := by
    rcases chosen.mostWork with ⟨kept, -⟩ | ⟨best, isBest, greatest, -⟩
    · rw [kept] at isTip
      exact chosen.cleaned.free (started.sound.mostWork tip isTip).2
    · rw [isBest] at isTip
      cases isTip
      exact (chosen.best tip greatest).free
  rcases attempt_spec started.onWay (tree.rooted tip tipKnown) with
    ⟨last, stopped, connected, attempt⟩
  exact ⟨last, stopped, attempt,
    activatePass_eq equation isTip isActive connected,
    underway.move tree isTip free attempt.below⟩

theorem Attempted.connectable
    {stopped : Option (Lineage α × Reject)}
    (attempted :
      Attempted less valid known outcomes genesis oldTip state found tip last
        stopped)
    (connectable : Connectable outcomes.connectTip oldTip tip) :
    last = tip ∧ stopped = none := by
  cases stopped with
  | none => exact ⟨attempted.attempt.complete rfl, rfl⟩
  | some blockedBy =>
      rcases attempted.attempt.blocked blockedBy.1 blockedBy.2 rfl with
        ⟨first, -, -⟩
      exact absurd (connectable _ first.below) first.isBlocked

theorem Attempted.stops_at
    {stopped : Option (Lineage α × Reject)} {kind : RejectKind}
    (attempted :
      Attempted less valid known outcomes genesis oldTip state found tip last
        stopped)
    (first : FirstBlocked outcomes.connectTip oldTip tip blocked)
    (isKind : outcomes.kind blocked = some kind) :
    ∃ reject, stopped = some (blocked, reject) ∧
      kindOf reject = some kind ∧ blocked.pprev? = some last := by
  cases stopped with
  | none =>
      have complete := attempted.attempt.complete rfl
      have ok := attempted.attempt.ok
      rw [complete] at ok
      exact absurd (ok blocked first.below) first.isBlocked
  | some blockedBy =>
      rcases blockedBy with ⟨other, reject⟩
      rcases attempted.attempt.blocked other reject rfl with
        ⟨otherFirst, parent, rejected⟩
      cases first.unique otherFirst
      rw [Outcomes.kind, rejected, Option.bind_some] at isKind
      exact ⟨reject, rfl, isKind, parent⟩

/-! ## Resting states -/

/-- The chosen tip is the active one. -/
structure Resting
    (known : Lineage α → Prop) (outcomes : Outcomes α)
    (genesis oldTip : Lineage α) (state : ChainState α)
    (last : Lineage α) : Prop extends
    Started known outcomes genesis oldTip state last where
  mostWork : state.chainMostWork = some last

/-- The loop ends in a resting state that no candidate outranks. -/
theorem Resting.ends
    (ranks : Ranks less rank) (tree : Tree known genesis)
    (resting : Resting known outcomes genesis oldTip state last)
    (above :
      ∀ other, Candidate valid state other → rank other ≤ rank last) :
    ∃ final, Loop.Ends (body less valid outcomes) state final ∧
      final.chainActive = some last := by
  rcases chosen_of_sound less valid resting.sound with
    ⟨found, equation, chosen⟩
  have isTip := target_kept ranks chosen resting.mostWork above
  rcases attempted tree resting.toStarted equation chosen isTip with
    ⟨reached, stopped, attempted⟩
  rcases attempted.connectable resting.onWay.ok with ⟨rfl, rfl⟩
  exact ⟨_, Loop.Ends.last attempted.pass, rfl⟩

theorem body_of_dropFailed
    {other : ChainState α} (same : dropFailed state = dropFailed other) :
    body less valid outcomes state = body less valid outcomes other := by
  have chosen :
      findMostWorkChain less valid state =
        findMostWorkChain less valid other := by
    rw [findMostWorkChain, findMostWorkChain, same]
  rw [body, activatePass, activatePass, chosen]

/-- A pending tip whose failed blocks reach down to the active chain. -/
theorem settle
    (less : Lineage α → Lineage α → Bool) (valid : Lineage α → Bool)
    (tree : Tree known genesis) (underway : Underway known outcomes state)
    (isActive : state.chainActive = some last)
    (onWay : OnWay outcomes.connectTip genesis oldTip last)
    (mostWork : state.chainMostWork = some tip) (below : last ≤ tip)
    (failed : ∀ other ≤ tip, ¬ other ≤ last → other ∈ state.failed) :
    Resting known outcomes genesis oldTip (dropFailed state) last ∧
      body less valid outcomes state =
        body less valid outcomes (dropFailed state) := by
  have dropped := dropFailedTips_spec state tip
  have equation : dropFailed state = dropFailedTips state tip := by
    rw [dropFailed, mostWork]
  have lastFree := underway.apart.active last isActive
  have droppedUnderway := underway.dropFailed tree
  have droppedActive : (dropFailed state).chainActive = some last := by
    rw [equation, dropped.active, isActive]
  have droppedMostWork : (dropFailed state).chainMostWork = some last := by
    rw [equation]
    rcases dropped.mostWork with ⟨-, all⟩ | ⟨other, isOther, under, fine, all⟩
    · exact absurd (all last below) (lastFree last le_rfl)
    · have lower : other ≤ last := by
        by_contra outside
        exact fine (failed other under outside)
      have upper : last ≤ other := by
        by_contra outside
        exact lastFree last le_rfl (all last below outside)
      rw [isOther, le_antisymm lower upper]
  have sound : Sound known (dropFailed state) := by
    refine ⟨droppedUnderway.apart, droppedUnderway.active,
      droppedUnderway.candidates, droppedUnderway.failures, ?_⟩
    intro other isOther
    rw [droppedMostWork] at isOther
    cases isOther
    exact ⟨(droppedUnderway.mostWork last droppedMostWork).1,
      droppedUnderway.apart.active last droppedActive⟩
  refine ⟨⟨⟨sound, droppedActive, onWay⟩, droppedMostWork⟩, ?_⟩
  exact body_of_dropFailed (dropFailed_of_sound sound).symm

/-! ## Candidates that give way -/

/-- The loop goes on from a resting state with fewer candidates. -/
structure Continues
    (less : Lineage α → Lineage α → Bool) (valid : Lineage α → Bool)
    (known : Lineage α → Prop) (outcomes : Outcomes α)
    (genesis oldTip blocked : Lineage α) (state next : ChainState α)
    (last : Lineage α) : Prop where
  ends :
    ∀ final, Loop.Ends (body less valid outcomes) next final →
      Loop.Ends (body less valid outcomes) state final
  resting : Resting known outcomes genesis oldTip next last
  members :
    ∀ other ∈ next.setBlockIndexValid, other ∈ state.setBlockIndexValid
  fewer : ∀ other, Candidate valid next other → Candidate valid state other
  kept :
    ∀ other, Candidate valid state other → ¬ blocked ≤ other →
      Candidate valid next other

/-- The candidates after a block has been found invalid. -/
theorem candidate_of_invalid
    {other : Lineage α} (candidate : Candidate valid state other)
    (apart : ¬ blocked ≤ other) :
    Candidate valid (state.markFailed blocked) other := by
  refine ⟨mem_markFailed.mpr ⟨candidate.member, ?_⟩, candidate.valid, ?_⟩
  · rintro rfl
    exact apart le_rfl
  · intro ancestor below failed
    rcases mem_failed_markFailed.mp failed with rfl | earlier
    · exact apart below
    · exact candidate.free ancestor below earlier

theorem candidate_before_invalid
    {other : Lineage α}
    (candidate : Candidate valid (state.markFailed blocked) other) :
    Candidate valid state other := by
  refine ⟨(mem_markFailed.mp candidate.member).1, candidate.valid, ?_⟩
  intro ancestor below failed
  exact candidate.free ancestor below
    (mem_failed_markFailed.mpr (Or.inr failed))

omit [DecidableEq α] in
theorem candidate_moved
    {other : Lineage α} {tip : Option (Lineage α)} :
    Candidate valid { state with chainActive := tip } other ↔
      Candidate valid state other := by
  constructor
  · rintro ⟨member, isValid, free⟩
    exact ⟨member, isValid, free⟩
  · rintro ⟨member, isValid, free⟩
    exact ⟨member, isValid, free⟩

theorem candidate_dropFailed
    {other : Lineage α} (apart : Apart state) :
    Candidate valid (dropFailed state) other ↔
      Candidate valid state other := by
  cases mostWork : state.chainMostWork with
  | none => rw [dropFailed, mostWork]
  | some tip =>
      have dropped := dropFailedTips_spec state tip
      have equation : dropFailed state = dropFailedTips state tip := by
        rw [dropFailed, mostWork]
      rw [equation]
      constructor
      · rintro ⟨member, isValid, free⟩
        refine ⟨dropped.members other member, isValid, ?_⟩
        rw [Free, dropped.failed] at free
        exact free
      · rintro ⟨member, isValid, free⟩
        refine ⟨dropped.kept other member (apart.candidates other member),
          isValid, ?_⟩
        rw [Free, dropped.failed]
        exact free

theorem members_dropFailed
    {other : Lineage α}
    (member : other ∈ (dropFailed state).setBlockIndexValid) :
    other ∈ state.setBlockIndexValid := by
  cases mostWork : state.chainMostWork with
  | none => rwa [dropFailed, mostWork] at member
  | some tip =>
      have equation : dropFailed state = dropFailedTips state tip := by
        rw [dropFailed, mostWork]
      rw [equation] at member
      exact (dropFailedTips_spec state tip).members other member

section GivesWay

variable {stopped : Option (Lineage α × Reject)}

/-- A dirty tip is erased, and the chain rests in front of it. -/
theorem continues_of_dirtyBlock
    (chosen : Chosen less valid state found)
    (attempted :
      Attempted less valid known outcomes genesis oldTip state found tip last
        stopped)
    (keepsStale : KeepsStale outcomes oldTip tip)
    (first : FirstBlocked outcomes.connectTip oldTip tip blocked)
    (kind : outcomes.kind blocked = some .dirtyBlock) :
    ∃ next, Continues less valid known outcomes genesis oldTip blocked state
      next last ∧ blocked ∉ next.setBlockIndexValid := by
  rcases attempted.stops_at first kind with ⟨reject, rfl, isKind, parent⟩
  have pass := attempted.pass
  rw [finishPass, handleReject_dirtyBlock isKind parent] at pass
  have onWay : OnWay outcomes.connectTip genesis oldTip last :=
    ⟨attempted.attempt.rooted, attempted.attempt.ok,
      attempted.attempt.stale keepsStale⟩
  refine ⟨_, ⟨fun final ends => Loop.Ends.again pass ends,
    ⟨⟨attempted.moved.dirtyBlock rfl, rfl, onWay⟩, rfl⟩, ?_, ?_, ?_⟩, ?_⟩
  · intro other member
    exact chosen.cleaned.members other (mem_erase.mp member).1
  · rintro other ⟨member, isValid, free⟩
    apply (candidate_found chosen).mp
    exact ⟨(mem_erase.mp member).1, isValid, free⟩
  · intro other candidate apart
    rcases (candidate_found chosen).mpr candidate with ⟨member, isValid, free⟩
    refine ⟨mem_erase.mpr ⟨member, ?_⟩, isValid, free⟩
    rintro rfl
    exact apart le_rfl
  · intro member
    exact (mem_erase.mp member).2 rfl

/-- An invalid tip is marked, and the chain rests in front of it. -/
theorem continues_of_invalid_tip
    (tree : Tree known genesis)
    (chosen : Chosen less valid state found)
    (isTip : found.chainMostWork = some tip)
    (attempted :
      Attempted less valid known outcomes genesis oldTip state found tip last
        stopped)
    (keepsStale : KeepsStale outcomes oldTip tip)
    (first : FirstBlocked outcomes.connectTip oldTip tip tip)
    (kind : outcomes.kind tip = some .invalid) :
    ∃ next, Continues less valid known outcomes genesis oldTip tip state
      next last ∧ tip ∉ next.setBlockIndexValid := by
  rcases attempted.stops_at first kind with ⟨reject, rfl, isKind, parent⟩
  have pass := attempted.pass
  rw [finishPass, handleReject_invalid isKind] at pass
  have onWay : OnWay outcomes.connectTip genesis oldTip last :=
    ⟨attempted.attempt.rooted, attempted.attempt.ok,
      attempted.attempt.stale keepsStale⟩
  have free := (attempted.moved.mostWork tip isTip).2
  have lastKnown : known last := by
    rcases attempted.moved.active with ⟨other, same, isKnown⟩
    cases same
    exact isKnown
  have underway : Underway known outcomes
      (ChainState.markFailed { found with chainActive := some last } tip) :=
    invalid_underway tree attempted.moved.apart lastKnown
      (attempted.moved.mostWork tip isTip).1 attempted.moved.candidates
      attempted.moved.failures rfl isTip le_rfl parent kind
      (fun other inside failed => absurd failed (free other inside))
  rcases Lineage.eq_child_of_pprev? parent with ⟨item, rfl⟩
  have allFailed :
      ∀ other ≤ Lineage.child last item, ¬ other ≤ last →
        other ∈ (ChainState.markFailed
          { found with chainActive := some last } (.child last item)).failed := by
    intro other inside outside
    rcases Lineage.le_child_iff.mp inside with rfl | lower
    · exact mem_failed_markFailed.mpr (Or.inl rfl)
    · exact absurd lower outside
  rcases settle less valid tree underway rfl onWay isTip
      (Lineage.le_child last item) allFailed with ⟨resting, sameBody⟩
  refine ⟨_, ⟨?_, resting, ?_, ?_, ?_⟩, ?_⟩
  · intro final ends
    exact Loop.Ends.again pass (ends.of_pass_eq sameBody)
  · intro other member
    have before := (mem_markFailed.mp (members_dropFailed member)).1
    exact chosen.cleaned.members other before
  · intro other candidate
    have before :=
      candidate_before_invalid
        ((candidate_dropFailed underway.apart).mp candidate)
    exact (candidate_found chosen).mp (candidate_moved.mp before)
  · intro other candidate apart
    apply (candidate_dropFailed underway.apart).mpr
    apply candidate_of_invalid _ apart
    exact candidate_moved.mpr ((candidate_found chosen).mpr candidate)
  · intro member
    exact (mem_markFailed.mp (members_dropFailed member)).2 rfl

/--
An invalid block below the best candidate: the next pass marks the candidate
but keeps it as the chosen tip, and the pass after that leaves it behind.
-/
theorem continues_of_invalid_ancestor
    (ranks : Ranks less rank) (tree : Tree known genesis)
    (chosen : Chosen less valid state found)
    (isTip : found.chainMostWork = some tip)
    (best : Ranking.greatest? less found.setBlockIndexValid = some tip)
    (attempted :
      Attempted less valid known outcomes genesis oldTip state found tip last
        stopped)
    (keepsStale : KeepsStale outcomes oldTip tip)
    (first : FirstBlocked outcomes.connectTip oldTip tip blocked)
    (kind : outcomes.kind blocked = some .invalid)
    (different : blocked ≠ tip) :
    ∃ next, Continues less valid known outcomes genesis oldTip blocked state
      next last ∧ tip ∉ next.setBlockIndexValid := by
  rcases attempted.stops_at first kind with ⟨reject, rfl, isKind, parent⟩
  have pass := attempted.pass
  rw [finishPass, handleReject_invalid isKind] at pass
  have onWay : OnWay outcomes.connectTip genesis oldTip last :=
    ⟨attempted.attempt.rooted, attempted.attempt.ok,
      attempted.attempt.stale keepsStale⟩
  have free := (attempted.moved.mostWork tip isTip).2
  have tipCandidate := chosen.best tip best
  have lastKnown : known last := by
    rcases attempted.moved.active with ⟨other, same, isKnown⟩
    cases same
    exact isKnown
  obtain ⟨marked, isMarked⟩ :
      ∃ marked, marked =
        ChainState.markFailed { found with chainActive := some last }
          blocked := ⟨_, rfl⟩
  have underway : Underway known outcomes marked := by
    rw [isMarked]
    exact invalid_underway tree attempted.moved.apart lastKnown
      (attempted.moved.mostWork tip isTip).1 attempted.moved.candidates
      attempted.moved.failures rfl isTip first.below parent kind
      (fun other inside failed => absurd failed (free other inside))
  have markedTip : marked.chainMostWork = some tip := by
    rw [isMarked]
    exact isTip
  have markedActive : marked.chainActive = some last := by
    rw [isMarked]
    rfl
  have markedFailed :
      ∀ other ≤ tip, other ∈ marked.failed → other = blocked := by
    intro other inside failed
    rw [isMarked] at failed
    rcases mem_failed_markFailed.mp failed with same | earlier
    · exact same
    · exact absurd earlier (free other inside)
  have tipFine : tip ∉ marked.failed := by
    intro failed
    exact different (markedFailed tip le_rfl failed).symm
  have sameDropped := dropFailed_of_fine markedTip tipFine
  have apart : Apart (dropFailed marked) := by
    rw [sameDropped]
    exact underway.apart
  rcases findMostWorkChain_spec less valid apart with
    ⟨again, equation, chosenAgain⟩
  rw [sameDropped] at chosenAgain
  have blockedFailed : blocked ∈ again.failed := by
    apply chosenAgain.cleaned.failures
    rw [isMarked]
    exact mem_failed_markFailed.mpr (Or.inl rfl)
  have againBelow :
      ∀ other ∈ again.setBlockIndexValid, rank other ≤ rank tip := by
    intro other member
    have before := chosenAgain.cleaned.members other member
    rw [isMarked] at before
    exact rank_le_best ranks best other (mem_markFailed.mp before).1
  have tipRemoved : tip ∉ again.setBlockIndexValid := by
    intro member
    cases greatest : Ranking.greatest? less again.setBlockIndexValid with
    | none =>
        rw [Ranking.greatest?_eq_none.mp greatest] at member
        cases member
    | some other =>
        have candidate := chosenAgain.best other greatest
        have lower := againBelow other candidate.member
        have upper := rank_le_best ranks greatest tip member
        have same := ranks.injective (le_antisymm lower upper)
        exact candidate.free blocked (same ▸ first.below) blockedFailed
  have markedMember : tip ∈ marked.setBlockIndexValid := by
    rw [isMarked]
    exact mem_markFailed.mpr ⟨tipCandidate.member, different.symm⟩
  have tipFailed : tip ∈ again.failed := by
    rcases chosenAgain.cleaned.removed tip markedMember tipRemoved with
      invalid | failed
    · rw [tipCandidate.valid] at invalid
      cases invalid
    · exact failed
  have path :
      ∀ other ≤ tip, ¬ other ≤ last → other ∈ again.failed := by
    intro other inside outside
    rcases chosenAgain.cleaned.caused tip tipFailed with
      ⟨cause, below, isCause, between⟩
    rw [markedFailed cause below isCause] at between
    rcases Lineage.eq_child_of_pprev? parent with ⟨item, rfl⟩
    rcases Lineage.le_total_of_le inside first.below with lower | upper
    · rcases Lineage.le_child_iff.mp lower with rfl | under
      · exact blockedFailed
      · exact absurd under outside
    · rcases eq_or_lt_of_le upper with rfl | strict
      · exact blockedFailed
      · exact between other strict inside
  have againTip : again.chainMostWork = some tip := by
    rcases chosenAgain.mostWork with
      ⟨kept, -⟩ | ⟨other, isOther, greatest, better⟩
    · rw [kept, markedTip]
    · have above := (ranks.less_iff tip other).mp (better tip markedTip)
      have below := againBelow other (Ranking.greatest?_mem greatest)
      exact absurd below (not_le_of_gt above)
  have againActive : again.chainActive = some last :=
    chosenAgain.cleaned.active.trans markedActive
  rcases kind_eq_some kind with ⟨otherReject, rejected, otherKind⟩
  have secondPass :
      body less valid outcomes marked =
        some (again.markFailed blocked, false) := by
    have sameAgain :
        { again with chainActive := some last } = again := by
      rw [← againActive]
    rw [body, activatePass_eq equation againTip againActive
      (attempt_of_blocked first.below parent rejected), finishPass,
      handleReject_invalid otherKind, sameAgain]
  have finalUnderway := underway.pass tree secondPass
  have finalFailed :
      ∀ other ≤ tip, ¬ other ≤ last →
        other ∈ (again.markFailed blocked).failed := by
    intro other inside outside
    exact mem_failed_markFailed.mpr (Or.inr (path other inside outside))
  rcases settle less valid tree finalUnderway againActive onWay againTip
      attempted.attempt.below finalFailed with ⟨resting, sameBody⟩
  refine ⟨_, ⟨?_, resting, ?_, ?_, ?_⟩, ?_⟩
  · intro final ends
    rw [← isMarked] at pass
    exact Loop.Ends.again pass
      (Loop.Ends.again secondPass (ends.of_pass_eq sameBody))
  · intro other member
    have inAgain := (mem_markFailed.mp (members_dropFailed member)).1
    have inMarked := chosenAgain.cleaned.members other inAgain
    rw [isMarked] at inMarked
    exact chosen.cleaned.members other (mem_markFailed.mp inMarked).1
  · intro other candidate
    have inAgain :=
      candidate_before_invalid
        ((candidate_dropFailed finalUnderway.apart).mp candidate)
    have inMarked := (candidate_found chosenAgain).mp inAgain
    rw [isMarked] at inMarked
    exact (candidate_found chosen).mp
      (candidate_moved.mp (candidate_before_invalid inMarked))
  · intro other candidate outside
    apply (candidate_dropFailed finalUnderway.apart).mpr
    apply candidate_of_invalid _ outside
    apply (candidate_found chosenAgain).mpr
    rw [isMarked]
    apply candidate_of_invalid _ outside
    exact candidate_moved.mpr ((candidate_found chosen).mpr candidate)
  · intro member
    exact tipRemoved (mem_markFailed.mp (members_dropFailed member)).1

/-- The best candidate gives way to the others. -/
theorem continues_of_givesWay
    (ranks : Ranks less rank) (tree : Tree known genesis)
    (chosen : Chosen less valid state found)
    (isTip : found.chainMostWork = some tip)
    (best : Ranking.greatest? less found.setBlockIndexValid = some tip)
    (attempted :
      Attempted less valid known outcomes genesis oldTip state found tip last
        stopped)
    (keepsStale : KeepsStale outcomes oldTip tip)
    (givesWay : GivesWay outcomes oldTip tip) :
    ∃ blocked next,
      FirstBlocked outcomes.connectTip oldTip tip blocked ∧
        outcomes.kind blocked ≠ some .invalidLotto ∧
        Continues less valid known outcomes genesis oldTip blocked state next
          last ∧
        tip ∉ next.setBlockIndexValid := by
  rcases givesWay with ⟨blocked, first, invalid | ⟨dirty, rfl⟩⟩
  · have notLotto : outcomes.kind blocked ≠ some .invalidLotto := by
      simp [invalid]
    by_cases isSelf : blocked = tip
    · rcases isSelf with rfl
      rcases continues_of_invalid_tip tree chosen isTip attempted keepsStale
          first invalid with ⟨next, continues, removed⟩
      exact ⟨blocked, next, first, notLotto, continues, removed⟩
    · rcases continues_of_invalid_ancestor ranks tree chosen isTip best
          attempted keepsStale first invalid isSelf with
        ⟨next, continues, removed⟩
      exact ⟨blocked, next, first, notLotto, continues, removed⟩
  · rcases continues_of_dirtyBlock chosen attempted keepsStale first dirty with
      ⟨next, continues, removed⟩
    exact ⟨blocked, next, first, by simp [dirty], continues, removed⟩

end GivesWay

/-! ## The end of the loop -/

omit [DecidableEq α] in
/-- A halting candidate does not lie behind a block that gives way. -/
theorem not_le_of_halts
    (halts : Halts outcomes oldTip pindex)
    (first : FirstBlocked outcomes.connectTip oldTip tip blocked)
    (kind : outcomes.kind blocked ≠ some .invalidLotto) :
    ¬ blocked ≤ pindex := by
  intro below
  rcases halts with connectable | ⟨other, otherFirst, otherKind⟩
  · exact first.isBlocked (connectable blocked below)
  · have same :=
      otherFirst.unique ⟨below, first.isBlocked, first.before⟩
    exact kind (same ▸ otherKind)

/-- The pass that attempts a halting candidate is the last one. -/
theorem ends_of_halts
    {stopped : Option (Lineage α × Reject)} (rank : Lineage α → ρ)
    (attempted :
      Attempted less valid known outcomes genesis oldTip state found pindex
        last stopped)
    (halts : Halts outcomes oldTip pindex) :
    ∃ final, Loop.Ends (body less valid outcomes) state final ∧
      final.chainActive = some last ∧
      EndsWell rank outcomes oldTip pindex last := by
  rcases halts with connectable | ⟨blocked, first, kind⟩
  · rcases attempted.connectable connectable with ⟨rfl, rfl⟩
    exact ⟨_, Loop.Ends.last attempted.pass, rfl, Or.inl le_rfl⟩
  · rcases attempted.stops_at first kind with ⟨reject, rfl, isKind, parent⟩
    have pass := attempted.pass
    rw [finishPass, handleReject_invalidLotto isKind] at pass
    exact ⟨_, Loop.Ends.last pass, rfl,
      Or.inr ⟨blocked, first, kind, parent⟩⟩

/-- There is a best candidate when there is one at all. -/
theorem exists_best
    (ranks : Ranks less rank) (chosen : Chosen less valid state found)
    (candidate : Candidate valid state pindex) :
    ∃ tip, Candidate valid state tip ∧
      ∀ other, Candidate valid state other → rank other ≤ rank tip := by
  have inFound := (candidate_found chosen).mpr candidate
  cases greatest : Ranking.greatest? less found.setBlockIndexValid with
  | none =>
      have member := inFound.member
      rw [Ranking.greatest?_eq_none.mp greatest] at member
      cases member
  | some tip =>
      refine ⟨tip,
        (candidate_found chosen).mp (chosen.best tip greatest), ?_⟩
      intro other otherCandidate
      exact rank_le_best ranks greatest other
        ((candidate_found chosen).mpr otherCandidate).member

/-- The candidates above a halting one all give way. -/
def AllGiveWay
    (valid : Lineage α → Bool) (rank : Lineage α → ρ)
    (outcomes : Outcomes α) (state : ChainState α)
    (oldTip pindex : Lineage α) : Prop :=
  ∀ other, Candidate valid state other → rank pindex < rank other →
    GivesWay outcomes oldTip other ∧ KeepsStale outcomes oldTip other

/--
When the best candidate is attempted, the loop ends or goes on from a resting
state without it.
-/
theorem ends_or_continues
    (ranks : Ranks less rank) (tree : Tree known genesis)
    (started : Started known outcomes genesis oldTip state active)
    (candidate : Candidate valid state pindex)
    (halts : Halts outcomes oldTip pindex)
    (giveWay : AllGiveWay valid rank outcomes state oldTip pindex)
    (mostWork :
      ∀ other, state.chainMostWork = some other →
        ∃ above, Candidate valid state above ∧ rank other ≤ rank above) :
    (∃ final last, Loop.Ends (body less valid outcomes) state final ∧
      final.chainActive = some last ∧
      EndsWell rank outcomes oldTip pindex last) ∨
    ∃ blocked next last tip,
      Continues less valid known outcomes genesis oldTip blocked state next
          last ∧
        tip ∈ state.setBlockIndexValid ∧ tip ∉ next.setBlockIndexValid ∧
        ¬ blocked ≤ pindex := by
  rcases chosen_of_sound less valid started.sound with
    ⟨found, equation, chosen⟩
  rcases exists_best ranks chosen candidate with ⟨tip, isCandidate, best⟩
  have below :
      ∀ other, state.chainMostWork = some other → rank other ≤ rank tip := by
    intro other isOther
    rcases mostWork other isOther with ⟨above, isAbove, lower⟩
    exact lower.trans (best above isAbove)
  rcases target_best ranks chosen isCandidate best below with
    ⟨isTip, isBest⟩
  rcases attempted tree started equation chosen isTip with
    ⟨last, stopped, attempted⟩
  rcases eq_or_lt_of_le (best pindex candidate) with same | lower
  · cases ranks.injective same
    left
    rcases ends_of_halts rank attempted halts with ⟨final, ends, isLast, well⟩
    exact ⟨final, last, ends, isLast, well⟩
  · right
    rcases giveWay tip isCandidate lower with ⟨givesWay, keepsStale⟩
    rcases continues_of_givesWay ranks tree chosen isTip isBest attempted
        keepsStale givesWay with
      ⟨blocked, next, first, kind, continues, removed⟩
    exact ⟨blocked, next, last, tip, continues, isCandidate.member, removed,
      not_le_of_halts halts first kind⟩

/-- From a resting state, by induction on the number of candidates. -/
theorem Resting.ends_well
    (ranks : Ranks less rank) (tree : Tree known genesis)
    (resting : Resting known outcomes genesis oldTip state active)
    (candidate : Candidate valid state pindex)
    (halts : Halts outcomes oldTip pindex)
    (giveWay : AllGiveWay valid rank outcomes state oldTip pindex) :
    ∃ final last, Loop.Ends (body less valid outcomes) state final ∧
      final.chainActive = some last ∧
      EndsWell rank outcomes oldTip pindex last := by
  induction size : state.setBlockIndexValid.toFinset.card
      using Nat.strong_induction_on generalizing state active with
  | _ count inductionHypothesis =>
      by_cases top :
          ∀ other, Candidate valid state other → rank other ≤ rank active
      · rcases resting.ends ranks tree top with ⟨final, ends, isLast⟩
        exact ⟨final, active, ends, isLast, Or.inl (top pindex candidate)⟩
      · simp only [not_forall, not_le] at top
        rcases top with ⟨above, isAbove, higher⟩
        have mostWork :
            ∀ other, state.chainMostWork = some other →
              ∃ above, Candidate valid state above ∧
                rank other ≤ rank above := by
          intro other isOther
          rw [resting.mostWork] at isOther
          cases isOther
          exact ⟨above, isAbove, higher.le⟩
        rcases ends_or_continues ranks tree resting.toStarted candidate halts
            giveWay mostWork with
          done | ⟨blocked, next, last, tip, continues, before, removed, apart⟩
        · exact done
        · have smaller :
              next.setBlockIndexValid.toFinset.card < count := by
            rw [← size]
            apply Finset.card_lt_card
            refine Finset.ssubset_iff_subset_ne.mpr ⟨?_, ?_⟩
            · intro other member
              rw [List.mem_toFinset] at member ⊢
              exact continues.members other member
            · intro same
              apply removed
              rw [← List.mem_toFinset, same, List.mem_toFinset]
              exact before
          have fewer : AllGiveWay valid rank outcomes next oldTip pindex := by
            intro other isCandidate
            exact giveWay other (continues.fewer other isCandidate)
          rcases inductionHypothesis _ smaller continues.resting
              (continues.kept pindex candidate apart) fewer rfl with
            ⟨final, last, ends, isLast, well⟩
          exact ⟨final, last, continues.ends final ends, isLast, well⟩

/-- The loop ends when a candidate is decisive. -/
theorem ends_of_decisive
    (ranks : Ranks less rank) (tree : Tree known genesis)
    (sound : Sound known state) (isActive : state.chainActive = some oldTip)
    (decisive : Decisive valid rank outcomes state oldTip pindex) :
    ∃ final last, Loop.Ends (body less valid outcomes) state final ∧
      final.chainActive = some last ∧
      EndsWell rank outcomes oldTip pindex last := by
  have oldKnown : known oldTip := by
    rcases sound.active with ⟨tip, same, isKnown⟩
    rw [isActive] at same
    cases same
    exact isKnown
  have started : Started known outcomes genesis oldTip state oldTip :=
    ⟨sound, isActive, tree.rooted oldTip oldKnown,
      fun _ below => Or.inl below, fun _ stale => stale.1⟩
  by_cases leading : ∃ tip, Leads valid rank state tip
  · rcases leading with ⟨tip, leads⟩
    rcases chosen_of_sound less valid sound with ⟨found, equation, chosen⟩
    have isTip :=
      target_kept ranks chosen leads.mostWork
        (fun other candidate => (leads.above other candidate).le)
    rcases attempted tree started equation chosen isTip with
      ⟨last, stopped, attempted⟩
    rcases decisive.selectable with candidate | otherLeads
    · have lower := leads.above pindex candidate
      rcases decisive.led tip leads lower with ⟨givesWay, keepsStale⟩
      rcases givesWay with ⟨blocked, first, dirty | ⟨invalid, rfl⟩⟩
      · rcases continues_of_dirtyBlock chosen attempted keepsStale first
            dirty with ⟨next, continues, -⟩
        have apart :=
          not_le_of_halts decisive.halts first (by simp [dirty])
        have fewer : AllGiveWay valid rank outcomes next oldTip pindex := by
          intro other isCandidate
          exact decisive.outranked other (continues.fewer other isCandidate)
        rcases continues.resting.ends_well ranks tree
            (continues.kept pindex candidate apart) decisive.halts fewer with
          ⟨final, last, ends, isLast, well⟩
        exact ⟨final, last, continues.ends final ends, isLast, well⟩
      · rcases continues_of_invalid_tip tree chosen isTip attempted keepsStale
            first invalid with ⟨next, continues, -⟩
        have apart :=
          not_le_of_halts decisive.halts first (by simp [invalid])
        have fewer : AllGiveWay valid rank outcomes next oldTip pindex := by
          intro other isCandidate
          exact decisive.outranked other (continues.fewer other isCandidate)
        rcases continues.resting.ends_well ranks tree
            (continues.kept pindex candidate apart) decisive.halts fewer with
          ⟨final, last, ends, isLast, well⟩
        exact ⟨final, last, continues.ends final ends, isLast, well⟩
    · have same : some tip = some pindex :=
        leads.mostWork.symm.trans otherLeads.mostWork
      cases same
      rcases ends_of_halts rank attempted decisive.halts with
        ⟨final, ends, isLast, well⟩
      exact ⟨final, last, ends, isLast, well⟩
  · have candidate : Candidate valid state pindex := by
      rcases decisive.selectable with candidate | leads
      · exact candidate
      · exact absurd ⟨pindex, leads⟩ leading
    have mostWork :
        ∀ other, state.chainMostWork = some other →
          ∃ above, Candidate valid state above ∧
            rank other ≤ rank above := by
      intro other isOther
      by_contra none
      apply leading
      refine ⟨other, isOther, ?_⟩
      intro above isAbove
      by_contra notBelow
      exact none ⟨above, isAbove, not_lt.mp notBelow⟩
    rcases ends_or_continues ranks tree started candidate decisive.halts
        decisive.outranked mostWork with
      done | ⟨blocked, next, last, tip, continues, -, -, apart⟩
    · exact done
    · have fewer : AllGiveWay valid rank outcomes next oldTip pindex := by
        intro other isCandidate
        exact decisive.outranked other (continues.fewer other isCandidate)
      rcases continues.resting.ends_well ranks tree
          (continues.kept pindex candidate apart) decisive.halts fewer with
        ⟨final, last, ends, isLast, well⟩
      exact ⟨final, last, continues.ends final ends, isLast, well⟩

end DSValue.Chain.Termination

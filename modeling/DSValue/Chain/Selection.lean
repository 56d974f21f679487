import DSValue.Chain.BestChain

/-!
# What `FindMostWorkChain` finds

Removing candidates with foreign Bitcoin hashes or with a failed ancestor
keeps the set of proper candidates, so that the loop over the candidates ends
with the best of them.
-/

namespace DSValue.Chain.Selection

open DSValue.Lib
open DSValue.Consensus.CheckLottoResult
open DSValue.Chain.BestChain

variable {α : Type} [DecidableEq α] {state next : ChainState α}
  {valid : Lineage α → Bool} {less : Lineage α → Lineage α → Bool}

/-! ## States -/

/-- No index on the way to this one has failed. -/
def Free (state : ChainState α) (pindex : Lineage α) : Prop :=
  ∀ ancestor ≤ pindex, ancestor ∉ state.failed

/-- A candidate that `FindMostWorkChain` does not remove. -/
structure Candidate
    (valid : Lineage α → Bool) (state : ChainState α) (pindex : Lineage α) :
    Prop where
  member : pindex ∈ state.setBlockIndexValid
  valid : valid pindex = true
  free : Free state pindex

/-- The candidates and the active chain are apart from the failed indexes. -/
structure Apart (state : ChainState α) : Prop where
  candidates : ∀ pindex ∈ state.setBlockIndexValid, pindex ∉ state.failed
  active : ∀ tip, state.chainActive = some tip → Free state tip

@[simp]
theorem mem_erase {pindex other : Lineage α} :
    other ∈ (state.erase pindex).setBlockIndexValid ↔
      other ∈ state.setBlockIndexValid ∧ other ≠ pindex := by
  simp [ChainState.erase]

@[simp]
theorem erase_chainActive (state : ChainState α) (pindex : Lineage α) :
    (state.erase pindex).chainActive = state.chainActive := rfl

@[simp]
theorem erase_chainMostWork (state : ChainState α) (pindex : Lineage α) :
    (state.erase pindex).chainMostWork = state.chainMostWork := rfl

@[simp]
theorem erase_failed (state : ChainState α) (pindex : Lineage α) :
    (state.erase pindex).failed = state.failed := rfl

@[simp]
theorem mem_markFailed {pindex other : Lineage α} :
    other ∈ (state.markFailed pindex).setBlockIndexValid ↔
      other ∈ state.setBlockIndexValid ∧ other ≠ pindex :=
  mem_erase

@[simp]
theorem mem_failed_markFailed {pindex other : Lineage α} :
    other ∈ (state.markFailed pindex).failed ↔
      other = pindex ∨ other ∈ state.failed :=
  List.mem_cons

theorem contains_eq_true {tip : Option (Lineage α)} {pindex : Lineage α} :
    contains tip pindex = true ↔ ∃ top, tip = some top ∧ pindex ≤ top := by
  cases tip with
  | none => simp [contains]
  | some top => simp [contains]

/-! ## Failed ancestors -/

theorem free_of_failedAncestor?
    (apart : Apart state) {pindex : Lineage α}
    (found : failedAncestor? state pindex = none) : Free state pindex := by
  have onActive :
      ∀ {index : Lineage α}, contains state.chainActive index = true →
        Free state index := by
    intro index inside ancestor below
    rcases contains_eq_true.mp inside with ⟨top, active, under⟩
    exact apart.active top active ancestor (below.trans under)
  induction pindex with
  | root item =>
      rw [failedAncestor?] at found
      split_ifs at found with inside clean
      · exact onActive inside
      · intro ancestor below
        rw [Lineage.le_root_iff.mp below]
        exact clean
  | child pprev item inductionHypothesis =>
      rw [failedAncestor?] at found
      split_ifs at found with inside clean
      · exact onActive inside
      · intro ancestor below
        rcases Lineage.le_child_iff.mp below with rfl | lower
        · exact clean
        · exact inductionHypothesis found ancestor lower

theorem failedAncestor?_spec
    {pindex pindexTest : Lineage α}
    (found : failedAncestor? state pindex = some pindexTest) :
    pindexTest ≤ pindex ∧ pindexTest ∈ state.failed ∧
      ∀ ancestor ≤ pindex, ¬ ancestor ≤ pindexTest →
        ancestor ∉ state.failed ∧
          contains state.chainActive ancestor = false := by
  induction pindex with
  | root item =>
      rw [failedAncestor?] at found
      split_ifs at found with inside failed
      cases found
      refine ⟨le_rfl, failed, ?_⟩
      intro ancestor below above
      exact absurd below above
  | child pprev item inductionHypothesis =>
      rw [failedAncestor?] at found
      split_ifs at found with inside failed
      · cases found
        refine ⟨le_rfl, failed, ?_⟩
        intro ancestor below above
        exact absurd below above
      · rcases inductionHypothesis found with ⟨lower, isFailed, between⟩
        refine ⟨lower.trans (Lineage.le_child pprev item), isFailed, ?_⟩
        intro ancestor below above
        rcases Lineage.le_child_iff.mp below with rfl | under
        · exact ⟨failed, by simpa using inside⟩
        · exact between ancestor under above

/-! ## Removing a path -/

/-- The indexes from a candidate down to, but without, a failed one. -/
def OnPath (pindexTest pindexNew pindex : Lineage α) : Prop :=
  pindexTest < pindex ∧ pindex ≤ pindexNew

theorem removePath_chains
    (pindexTest pindexNew : Lineage α) (state : ChainState α) :
    (removePath pindexTest pindexNew state).chainActive =
        state.chainActive ∧
      (removePath pindexTest pindexNew state).chainMostWork =
        state.chainMostWork := by
  induction pindexNew generalizing state with
  | root item =>
      rw [removePath]
      split_ifs <;> exact ⟨rfl, rfl⟩
  | child pprev item inductionHypothesis =>
      rw [removePath]
      split_ifs
      · exact ⟨rfl, rfl⟩
      · exact inductionHypothesis _

theorem removePath_spec
    {pindexTest pindexNew : Lineage α} (below : pindexTest ≤ pindexNew)
    (state : ChainState α) (pindex : Lineage α) :
    (pindex ∈ (removePath pindexTest pindexNew state).setBlockIndexValid ↔
        pindex ∈ state.setBlockIndexValid ∧
          ¬ OnPath pindexTest pindexNew pindex) ∧
      (pindex ∈ (removePath pindexTest pindexNew state).failed ↔
        pindex ∈ state.failed ∨ OnPath pindexTest pindexNew pindex) := by
  have nothing :
      ¬ OnPath pindexTest pindexTest pindex := by
    rintro ⟨above, under⟩
    exact absurd under (not_le_of_gt above)
  induction pindexNew generalizing state with
  | root item =>
      have same := Lineage.le_root_iff.mp below
      rw [← same, removePath.eq_def]
      rw [← same] at below
      cases pindexTest with
      | root _ => simp [nothing]
      | child _ _ => cases same
  | child pprev item inductionHypothesis =>
      rw [removePath]
      split_ifs with same
      · rw [same]
        simp [nothing]
      · have lower : pindexTest ≤ pprev := by
          rcases Lineage.le_child_iff.mp below with equal | under
          · exact absurd equal.symm same
          · exact under
        have split :
            OnPath pindexTest (.child pprev item) pindex ↔
              pindex = .child pprev item ∨
                OnPath pindexTest pprev pindex := by
          constructor
          · rintro ⟨above, under⟩
            rcases Lineage.le_child_iff.mp under with equal | lowerIndex
            · exact Or.inl equal
            · exact Or.inr ⟨above, lowerIndex⟩
          · rintro (rfl | ⟨above, under⟩)
            · exact ⟨Lineage.lt_child_iff.mpr lower, le_rfl⟩
            · exact ⟨above, under.trans (Lineage.le_child pprev item)⟩
        rcases inductionHypothesis lower
            (state.markFailed (.child pprev item)) with
          ⟨members, failures⟩
        refine ⟨?_, ?_⟩
        · rw [members, split, mem_markFailed, not_or, and_assoc]
        · rw [failures, split, mem_failed_markFailed, or_assoc, or_left_comm]

/-! ## The loop over the candidates -/

/-- What removing improper candidates from a state may change. -/
structure Cleaned
    (valid : Lineage α → Bool) (start state : ChainState α) : Prop where
  active : state.chainActive = start.chainActive
  mostWork : state.chainMostWork = start.chainMostWork
  members :
    ∀ pindex ∈ state.setBlockIndexValid, pindex ∈ start.setBlockIndexValid
  failures : ∀ pindex ∈ start.failed, pindex ∈ state.failed
  caused :
    ∀ pindex ∈ state.failed, ∃ cause ≤ pindex, cause ∈ start.failed ∧
      ∀ other, cause < other → other ≤ pindex → other ∈ state.failed
  within :
    ∀ pindex ∈ state.failed,
      pindex ∈ start.failed ∨
        ∃ pindexNew ∈ start.setBlockIndexValid, pindex ≤ pindexNew
  removed :
    ∀ pindex ∈ start.setBlockIndexValid,
      pindex ∉ state.setBlockIndexValid →
        valid pindex = false ∨ pindex ∈ state.failed
  apart :
    ∀ pindex ∈ state.setBlockIndexValid, pindex ∉ state.failed

omit [DecidableEq α] in
theorem Cleaned.refl (apart : Apart state) : Cleaned valid state state where
  active := rfl
  mostWork := rfl
  members := fun _ member => member
  failures := fun _ failed => failed
  caused := by
    intro pindex failed
    refine ⟨pindex, le_rfl, failed, ?_⟩
    intro other above below
    exact absurd below (not_le_of_gt above)
  within := fun _ failed => Or.inl failed
  removed := fun _ member absent => absurd member absent
  apart := apart.candidates

omit [DecidableEq α] in
theorem Cleaned.free
    {start : ChainState α} {pindex : Lineage α}
    (cleaned : Cleaned valid start state) (free : Free start pindex) :
    Free state pindex := by
  intro ancestor below failed
  rcases cleaned.caused ancestor failed with ⟨cause, under, causeFailed, -⟩
  exact free cause (under.trans below) causeFailed

/-- The proper candidates stay the same. -/
theorem Cleaned.candidate_iff
    {start : ChainState α} {pindex : Lineage α}
    (cleaned : Cleaned valid start state) :
    Candidate valid state pindex ↔ Candidate valid start pindex := by
  constructor
  · rintro ⟨member, isValid, free⟩
    refine ⟨cleaned.members pindex member, isValid, ?_⟩
    intro ancestor below failed
    exact free ancestor below (cleaned.failures ancestor failed)
  · rintro ⟨member, isValid, free⟩
    have freeNow := cleaned.free free
    refine ⟨?_, isValid, freeNow⟩
    by_contra absent
    rcases cleaned.removed pindex member absent with invalid | failed
    · simp [isValid] at invalid
    · exact freeNow pindex le_rfl failed

omit [DecidableEq α] in
theorem Cleaned.isApart
    {start : ChainState α} (cleaned : Cleaned valid start state)
    (apart : Apart start) : Apart state := by
  refine ⟨cleaned.apart, ?_⟩
  intro tip active
  rw [cleaned.active] at active
  exact cleaned.free (apart.active tip active)

theorem Cleaned.erase
    {start : ChainState α} {pindex : Lineage α}
    (cleaned : Cleaned valid start state) (invalid : valid pindex = false) :
    Cleaned valid start (state.erase pindex) where
  active := cleaned.active
  mostWork := cleaned.mostWork
  members := fun other member =>
    cleaned.members other (mem_erase.mp member).1
  failures := cleaned.failures
  caused := cleaned.caused
  within := cleaned.within
  removed := by
    intro other member absent
    by_cases kept : other ∈ state.setBlockIndexValid
    · have same : other = pindex := by
        by_contra different
        exact absent (mem_erase.mpr ⟨kept, different⟩)
      exact Or.inl (same ▸ invalid)
    · exact cleaned.removed other member kept
  apart := fun other member => cleaned.apart other (mem_erase.mp member).1

theorem Cleaned.removePath
    {start : ChainState α} {pindexTest pindexNew : Lineage α}
    (cleaned : Cleaned valid start state)
    (member : pindexNew ∈ state.setBlockIndexValid)
    (below : pindexTest ≤ pindexNew) (failed : pindexTest ∈ state.failed) :
    Cleaned valid start (removePath pindexTest pindexNew state) := by
  have spec := removePath_spec below state
  have chains := removePath_chains pindexTest pindexNew state
  constructor
  case active => rw [chains.1, cleaned.active]
  case mostWork => rw [chains.2, cleaned.mostWork]
  case members =>
    intro pindex member
    exact cleaned.members pindex ((spec pindex).1.mp member).1
  case failures =>
    intro pindex isFailed
    exact (spec pindex).2.mpr (Or.inl (cleaned.failures pindex isFailed))
  case caused =>
    intro pindex isFailed
    rcases (spec pindex).2.mp isFailed with before | onPath
    · rcases cleaned.caused pindex before with
        ⟨cause, under, isCause, between⟩
      refine ⟨cause, under, isCause, ?_⟩
      intro other aboveCause underIndex
      exact (spec other).2.mpr (Or.inl (between other aboveCause underIndex))
    · rcases cleaned.caused pindexTest failed with
        ⟨cause, under, isCause, between⟩
      refine ⟨cause, under.trans onPath.1.le, isCause, ?_⟩
      intro other aboveCause underIndex
      apply (spec other).2.mpr
      rcases Lineage.le_total_of_le underIndex onPath.1.le with lower | upper
      · exact Or.inl (between other aboveCause lower)
      · rcases eq_or_lt_of_le upper with rfl | strict
        · exact Or.inl failed
        · exact Or.inr ⟨strict, underIndex.trans onPath.2⟩
  case within =>
    intro pindex isFailed
    rcases (spec pindex).2.mp isFailed with before | onPath
    · exact cleaned.within pindex before
    · exact Or.inr ⟨pindexNew, cleaned.members pindexNew member, onPath.2⟩
  case removed =>
    intro pindex member absent
    by_cases kept : pindex ∈ state.setBlockIndexValid
    · by_cases onPath : OnPath pindexTest pindexNew pindex
      · exact Or.inr ((spec pindex).2.mpr (Or.inr onPath))
      · exact absurd ((spec pindex).1.mpr ⟨kept, onPath⟩) absent
    · rcases cleaned.removed pindex member kept with invalid | before
      · exact Or.inl invalid
      · exact Or.inr ((spec pindex).2.mpr (Or.inl before))
  case apart =>
    intro pindex member isFailed
    rcases (spec pindex).1.mp member with ⟨kept, offPath⟩
    rcases (spec pindex).2.mp isFailed with before | onPath
    · exact cleaned.apart pindex kept before
    · exact offPath onPath

/-- How the search for a candidate ends. -/
structure Found
    (less : Lineage α → Lineage α → Bool) (valid : Lineage α → Bool)
    (start : ChainState α) (search : Search α) : Prop where
  cleaned : Cleaned valid start search.state
  best :
    search.pindexNew =
      Ranking.greatest? less search.state.setBlockIndexValid
  candidate :
    ∀ pindexNew, search.pindexNew = some pindexNew →
      Candidate valid search.state pindexNew

omit [DecidableEq α] in
theorem length_filter_lt
    {values : List (Lineage α)} {keep : Lineage α → Bool} {value : Lineage α}
    (member : value ∈ values) (dropped : keep value = false) :
    (values.filter keep).length < values.length := by
  apply List.length_filter_lt_length_iff_exists.mpr
  exact ⟨value, member, by simp [dropped]⟩

theorem length_removePath_le
    (pindexTest pindexNew : Lineage α) (state : ChainState α) :
    (removePath pindexTest pindexNew state).setBlockIndexValid.length ≤
      state.setBlockIndexValid.length := by
  induction pindexNew generalizing state with
  | root item =>
      rw [removePath]
      split_ifs
      · exact le_rfl
      · exact List.length_filter_le _ _
  | child pprev item inductionHypothesis =>
      rw [removePath]
      split_ifs
      · exact le_rfl
      · exact (inductionHypothesis _).trans (List.length_filter_le _ _)

theorem length_removePath_lt
    {pindexTest pindexNew : Lineage α} {state : ChainState α}
    (member : pindexNew ∈ state.setBlockIndexValid)
    (different : pindexNew ≠ pindexTest) :
    (removePath pindexTest pindexNew state).setBlockIndexValid.length <
      state.setBlockIndexValid.length := by
  cases pindexNew with
  | root item =>
      rw [removePath, if_neg different]
      exact length_filter_lt member (by simp)
  | child pprev item =>
      rw [removePath, if_neg different]
      exact lt_of_le_of_lt (length_removePath_le pindexTest pprev _)
        (length_filter_lt member (by simp))

/-- One pass of the search keeps the proper candidates. -/
theorem searchPass_spec
    {start : ChainState α} {search : Search α}
    (apart : Apart start) (cleaned : Cleaned valid start search.state) :
    ∃ next done, searchPass less valid search = some (next, done) ∧
      (done = false →
        Cleaned valid start next.state ∧
          next.state.setBlockIndexValid.length <
            search.state.setBlockIndexValid.length) ∧
      (done = true → Found less valid start next) := by
  rw [searchPass]
  cases best : Ranking.greatest? less search.state.setBlockIndexValid with
  | none =>
      refine ⟨_, _, rfl, by simp, fun _ => ⟨cleaned, best.symm, ?_⟩⟩
      intro pindexNew impossible
      cases impossible
  | some pindexNew =>
      have member := Ranking.greatest?_mem best
      by_cases invalid : valid pindexNew = false
      · refine ⟨⟨search.state.erase pindexNew, none⟩, false,
          by simp [invalid], ?_, by simp⟩
        intro _
        exact ⟨cleaned.erase invalid, length_filter_lt member (by simp)⟩
      · simp only [invalid]
        have isValid : valid pindexNew = true := by simpa using invalid
        cases failure : failedAncestor? search.state pindexNew with
        | none =>
            refine ⟨_, _, rfl, by simp, fun _ => ⟨cleaned, best.symm, ?_⟩⟩
            rintro _ ⟨⟩
            exact ⟨member, isValid,
              free_of_failedAncestor? (cleaned.isApart apart) failure⟩
        | some pindexTest =>
            rcases failedAncestor?_spec failure with ⟨below, failed, -⟩
            have different : pindexNew ≠ pindexTest := by
              rintro rfl
              exact cleaned.apart pindexNew member failed
            refine ⟨_, _, rfl, ?_, by simp⟩
            intro _
            exact ⟨cleaned.removePath member below failed,
              length_removePath_lt member different⟩

/-- The search ends with the best proper candidate. -/
theorem searchCandidate_spec
    {start : ChainState α} (apart : Apart start)
    (less : Lineage α → Lineage α → Bool) (valid : Lineage α → Bool) :
    ∃ search, searchCandidate less valid start = some search ∧
      Found less valid start search := by
  have ended :
      ∃ final, Loop.run (searchPass less valid)
        (start.setBlockIndexValid.length + 1) ⟨start, none⟩ = some final := by
    apply Loop.run_of_measure
      (fun search : Search α => Cleaned valid start search.state)
      (fun search : Search α => search.state.setBlockIndexValid.length)
    · intro search cleaned
      rcases searchPass_spec apart cleaned with
        ⟨next, done, pass, continues, -⟩
      exact ⟨next, done, pass, continues⟩
    · exact Cleaned.refl apart
    · exact Nat.lt_succ_self _
  rcases ended with ⟨search, finished⟩
  refine ⟨search, finished, ?_⟩
  apply (Loop.ends_of_run finished).invariant
    (fun search => Cleaned valid start search.state)
    (Cleaned.refl apart)
  · intro search after cleaned pass
    rcases searchPass_spec apart cleaned with
      ⟨next, done, result, continues, -⟩
    rw [pass] at result
    cases result
    exact (continues rfl).1
  · intro search after cleaned pass
    rcases searchPass_spec apart cleaned with ⟨next, done, result, -, ends⟩
    rw [pass] at result
    cases result
    exact ends rfl

/-! ## Failed tips -/

/-- What leaving failed tips behind does. -/
structure Dropped
    (state : ChainState α) (tip : Lineage α) (next : ChainState α) :
    Prop where
  active : next.chainActive = state.chainActive
  failed : next.failed = state.failed
  members :
    ∀ pindex, pindex ∈ next.setBlockIndexValid →
      pindex ∈ state.setBlockIndexValid
  kept :
    ∀ pindex ∈ state.setBlockIndexValid, pindex ∉ state.failed →
      pindex ∈ next.setBlockIndexValid
  mostWork :
    (next.chainMostWork = none ∧ ∀ pindex ≤ tip, pindex ∈ state.failed) ∨
      ∃ last, next.chainMostWork = some last ∧ last ≤ tip ∧
        last ∉ state.failed ∧
        ∀ pindex ≤ tip, ¬ pindex ≤ last → pindex ∈ state.failed

theorem dropFailedTips_spec (state : ChainState α) (tip : Lineage α) :
    Dropped state tip (dropFailedTips state tip) := by
  induction tip generalizing state with
  | root item =>
      rw [dropFailedTips]
      split_ifs with failed
      · refine ⟨rfl, rfl, fun _ member => (mem_erase.mp member).1, ?_,
          Or.inl ⟨rfl, ?_⟩⟩
        · intro pindex member fine
          exact mem_erase.mpr ⟨member, fun same => fine (same ▸ failed)⟩
        · intro pindex below
          rw [Lineage.le_root_iff.mp below]
          exact failed
      · refine ⟨rfl, rfl, fun _ member => member, fun _ member _ => member,
          Or.inr ⟨_, rfl, le_rfl, failed, ?_⟩⟩
        intro pindex below above
        exact absurd below above
  | child pprev item inductionHypothesis =>
      rw [dropFailedTips]
      split_ifs with failed
      · have rest := inductionHypothesis (state.erase (.child pprev item))
        refine ⟨rest.active, rest.failed, ?_, ?_, ?_⟩
        · intro pindex member
          exact (mem_erase.mp (rest.members pindex member)).1
        · intro pindex member fine
          exact rest.kept pindex
            (mem_erase.mpr ⟨member, fun same => fine (same ▸ failed)⟩) fine
        · rcases rest.mostWork with ⟨none, all⟩ | ⟨last, tip, below, fine, all⟩
          · refine Or.inl ⟨none, ?_⟩
            intro pindex under
            rcases Lineage.le_child_iff.mp under with rfl | lower
            · exact failed
            · exact all pindex lower
          · refine Or.inr ⟨last, tip,
              below.trans (Lineage.le_child pprev item), fine, ?_⟩
            intro pindex under above
            rcases Lineage.le_child_iff.mp under with rfl | lower
            · exact failed
            · exact all pindex lower above
      · refine ⟨rfl, rfl, fun _ member => member, fun _ member _ => member,
          Or.inr ⟨_, rfl, le_rfl, failed, ?_⟩⟩
        intro pindex below above
        exact absurd below above

theorem dropFailed_of_fine
    {tip : Lineage α} (mostWork : state.chainMostWork = some tip)
    (fine : tip ∉ state.failed) : dropFailed state = state := by
  have same : { state with chainMostWork := some tip } = state := by
    rw [← mostWork]
  rw [dropFailed]
  cases tip with
  | root item =>
      simp only [mostWork, dropFailedTips, fine, if_false]
      exact same
  | child pprev item =>
      simp only [mostWork, dropFailedTips, fine, if_false]
      exact same

omit [DecidableEq α] in
theorem Dropped.apart
    {tip : Lineage α} (dropped : Dropped state tip next)
    (apart : Apart state) : Apart next := by
  constructor
  · intro pindex member
    rw [dropped.failed]
    exact apart.candidates pindex (dropped.members pindex member)
  · intro top active ancestor below
    rw [dropped.active] at active
    rw [dropped.failed]
    exact apart.active top active ancestor below

/-! ## Without failures -/

theorem failedAncestor?_of_unfailed
    (unfailed : state.failed = []) (pindex : Lineage α) :
    failedAncestor? state pindex = none := by
  cases found : failedAncestor? state pindex with
  | none => rfl
  | some pindexTest =>
      have failed := (failedAncestor?_spec found).2.1
      rw [unfailed] at failed
      cases failed

theorem dropFailed_of_unfailed (unfailed : state.failed = []) :
    dropFailed state = state := by
  cases mostWork : state.chainMostWork with
  | none => rw [dropFailed, mostWork]
  | some tip =>
      exact dropFailed_of_fine mostWork (by simp [unfailed])

/-- Without failures and foreign hashes the greatest candidate is found. -/
theorem findMostWorkChain_of_unfailed
    (less : Lineage α → Lineage α → Bool) (unfailed : state.failed = []) :
    findMostWorkChain less (fun _ => true) state =
      some (improve less
        ⟨state, Ranking.greatest? less state.setBlockIndexValid⟩) := by
  rw [findMostWorkChain, dropFailed_of_unfailed unfailed, searchCandidate,
    Loop.run, searchPass]
  cases Ranking.greatest? less state.setBlockIndexValid with
  | none => rfl
  | some pindexNew =>
      simp [failedAncestor?_of_unfailed unfailed pindexNew]

end DSValue.Chain.Selection

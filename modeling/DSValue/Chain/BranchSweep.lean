import DSValue.Chain.CandidateSweep

/-!
# The branches that a checkpoint leaves

With a checkpoint at or above the height the loop of `CheckActiveChain` erases
the branches below the checkpoint until it meets a candidate on the chain of
the tip.  The tip moves once at most, to the best candidate above the
checkpoint.  From then on the loop erases one more branch at most, since it
starts again at the new tip, which is on its own chain.
-/

namespace DSValue.Chain.BranchSweep

open DSValue.Lib
open DSValue.Core.Serialize
open DSValue.Core.Header
open DSValue.Core.Transaction
open DSValue.Consensus.CheckLottoResult
open DSValue.Consensus.CheckBlock
open DSValue.Chain.BestChain
open DSValue.Chain.Activation
open DSValue.Chain.BlockIndex
open DSValue.Chain.CheckActiveChain
open DSValue.Chain.Containment
open DSValue.Chain.CandidateSweep

variable {comparator : Comparator} {nHeight : Nat}
  {pcheckpoint current : CBlockIndex} {candidates : List CBlockIndex}

/-! ## What the loop meets -/

/-- The block branches off below the checkpoint. -/
def Forks (pcheckpoint pindex : CBlockIndex) : Prop :=
  ¬ pindex ≤ pcheckpoint ∧ ¬ pcheckpoint ≤ pindex

/-- The best candidate that is connected with the checkpoint moves the tip. -/
structure Leader
    (comparator : Comparator) (pcheckpoint : CBlockIndex)
    (candidates : List CBlockIndex) (leader : CBlockIndex) : Prop where
  member : leader ∈ candidates
  above : pcheckpoint < leader
  work : nChainWork pcheckpoint < nChainWork leader
  best :
    ∀ other ∈ candidates, other ≤ pcheckpoint ∨ pcheckpoint ≤ other →
      comparator.less leader other = false

/-- The loop meets the block before the tip has moved. -/
structure Early
    (comparator : Comparator) (pcheckpoint : CBlockIndex)
    (candidates : List CBlockIndex) (pindex : CBlockIndex) : Prop where
  member : pindex ∈ candidates
  forks : Forks pcheckpoint pindex
  ahead :
    ∀ other ∈ candidates,
      other ≤ pcheckpoint ∨
          Leader comparator pcheckpoint candidates other →
        comparator.less other pindex = true

/-- The block is not erased together with one that is met early. -/
def Alive
    (comparator : Comparator) (pcheckpoint : CBlockIndex)
    (candidates : List CBlockIndex) (pindex : CBlockIndex) : Prop :=
  ∀ early, Early comparator pcheckpoint candidates early → ¬ pindex ≤ early

/-- The loop meets the block after the tip has moved. -/
structure Late
    (comparator : Comparator) (pcheckpoint : CBlockIndex)
    (candidates : List CBlockIndex) (pindex : CBlockIndex) : Prop where
  member : pindex ∈ candidates
  forks : Forks pcheckpoint pindex
  alive : Alive comparator pcheckpoint candidates pindex
  best :
    ∀ other ∈ candidates, Forks pcheckpoint other →
      Alive comparator pcheckpoint candidates other →
        comparator.less pindex other = false
  ahead :
    ∃ leader, Leader comparator pcheckpoint candidates leader ∧
      ∀ other ∈ candidates, other < leader →
        comparator.less other pindex = true

/-- The block lies on the branch of one that the loop meets. -/
def Erased
    (comparator : Comparator) (pcheckpoint : CBlockIndex)
    (candidates : List CBlockIndex) (pindex : CBlockIndex) : Prop :=
  ∃ met,
    (Early comparator pcheckpoint candidates met ∨
        Late comparator pcheckpoint candidates met) ∧
      pindex ≤ met ∧ ¬ pindex ≤ pcheckpoint

variable {genesis leader met : CBlockIndex}

theorem Leader.unique
    {other : CBlockIndex}
    (first : Leader comparator pcheckpoint candidates leader)
    (second : Leader comparator pcheckpoint candidates other) :
    leader = other := by
  by_contra different
  have upper := comparator.not_less_iff.mp
    (first.best other second.member (Or.inr second.above.le))
  have lower := comparator.not_less_iff.mp
    (second.best leader first.member (Or.inr first.above.le))
  exact absurd lower
    (not_le.mpr (comparator.rank_lt_of_ne (Ne.symm different) upper))

theorem Late.unique
    {other : CBlockIndex}
    (first : Late comparator pcheckpoint candidates met)
    (second : Late comparator pcheckpoint candidates other) :
    met = other := by
  by_contra different
  have upper := comparator.not_less_iff.mp
    (first.best other second.member second.forks second.alive)
  have lower := comparator.not_less_iff.mp
    (second.best met first.member first.forks first.alive)
  exact absurd lower
    (not_le.mpr (comparator.rank_lt_of_ne (Ne.symm different) upper))

/-! ## One pass -/

/-- `pIndexCheck` is the last index that two chains have in common. -/
theorem isFork_of_outside
    {chainMostWork : CBlockIndex} (onCurrent : genesis ≤ current)
    (onMostWork : genesis ≤ chainMostWork)
    (outside : ¬ current ≤ chainMostWork) :
    ∃ pIndexCheck,
      current.pprev?.bind (lastContained chainMostWork) = some pIndexCheck ∧
        IsFork current chainMostWork pIndexCheck := by
  cases current with
  | root block =>
      rw [Lineage.le_root_iff] at onCurrent
      rw [onCurrent] at onMostWork
      exact absurd onMostWork outside
  | child pprev block =>
      have lower : ∀ pindex, pindex ≤ .child pprev block →
          pindex ≤ chainMostWork → pindex ≤ pprev := by
        intro pindex below inside
        rcases Lineage.le_child_iff.mp below with rfl | under
        · exact absurd inside outside
        · exact under
      rcases disconnectTips_spec (lower genesis onCurrent onMostWork)
          onMostWork with
        ⟨pIndexCheck, isCheck, onPprev, common, greatest⟩
      refine ⟨pIndexCheck, ?_, onPprev.trans (Lineage.le_child pprev block),
        common, fun pindex below inside =>
          greatest pindex (lower pindex below inside) inside⟩
      rw [Lineage.pprev?, Option.bind_some, lastContained_eq, isCheck]

section Fork

variable {chainMostWork pIndexCheck : CBlockIndex}
  (fork : IsFork current chainMostWork pIndexCheck)

include fork

/-- The tip moves to a block that descends from it and has more work. -/
theorem moveTip_of_fork :
    moveTip pIndexCheck current chainMostWork =
      if chainMostWork ≤ current ∧
          nChainWork chainMostWork < nChainWork current then current
      else chainMostWork := by
  have moves :
      (pIndexCheck ≤ chainMostWork ∧
          chainMostWork.height = pIndexCheck.height ∧
          nChainWork chainMostWork < nChainWork current) ↔
        chainMostWork ≤ current ∧
          nChainWork chainMostWork < nChainWork current := by
    constructor
    · rintro ⟨_, same, work⟩
      have whole := Lineage.eq_of_le_of_height_le fork.onMostWork same.le
      exact ⟨whole ▸ fork.onTip, work⟩
    · rintro ⟨whole, work⟩
      have same := le_antisymm fork.onMostWork
        (fork.greatest chainMostWork whole le_rfl)
      exact ⟨fork.onMostWork, by rw [same], work⟩
  rw [moveTip]
  simp only [moves]

theorem moveTip_self_of_fork :
    moveTip pIndexCheck pIndexCheck chainMostWork = chainMostWork := by
  rw [moveTip]
  split_ifs with moves
  · exact Lineage.eq_of_le_of_height_le fork.onMostWork moves.2.1.le
  · rfl

/-- The block branches off below the checkpoint unless it descends from it. -/
theorem fork_height_lt_iff (above : pcheckpoint ≤ chainMostWork) :
    pIndexCheck.height < pcheckpoint.height ↔ ¬ pcheckpoint ≤ current := by
  constructor
  · intro short descends
    have height :=
      Lineage.height_le_of_le (fork.greatest pcheckpoint descends above)
    omega
  · intro apart
    rcases Lineage.le_total_of_le above fork.onMostWork with up | down
    · exact absurd (up.trans fork.onTip) apart
    · apply Lineage.height_lt_of_lt
      refine lt_of_le_of_ne down ?_
      rintro rfl
      exact apart fork.onTip

/-- The branch of a fork is what of it is not on the checkpoint's chain. -/
theorem branch_iff
    (above : pcheckpoint ≤ chainMostWork) (apart : ¬ pcheckpoint ≤ current)
    (pindex : CBlockIndex) :
    (pIndexCheck < pindex ∧ pindex ≤ current) ↔
      pindex ≤ current ∧ ¬ pindex ≤ pcheckpoint := by
  have checkBelow : pIndexCheck ≤ pcheckpoint := by
    rcases Lineage.le_total_of_le above fork.onMostWork with up | down
    · exact absurd (up.trans fork.onTip) apart
    · exact down
  constructor
  · rintro ⟨higher, under⟩
    refine ⟨under, fun inside => ?_⟩
    exact absurd (fork.greatest pindex under (inside.trans above))
      (not_le_of_gt higher)
  · rintro ⟨under, off⟩
    refine ⟨?_, under⟩
    rcases Lineage.le_total_of_le fork.onTip under with up | down
    · refine lt_of_le_of_ne up ?_
      rintro rfl
      exact off checkBelow
    · exact absurd (down.trans checkBelow) off

end Fork

/-- What one pass does, by the place of the current candidate. -/
theorem enforcePass_high
    {loop : Enforcement}
    (high : ¬ pcheckpoint.height < nHeight)
    (rooted : ∀ pindex ∈ loop.candidates, genesis ≤ pindex)
    (onChain : genesis ≤ pcheckpoint)
    (above : pcheckpoint ≤ loop.chainMostWork)
    (found :
      (descending comparator.less loop.candidates)[loop.it]? = some current)
    (outside : ¬ current ≤ loop.chainMostWork) :
    (pcheckpoint ≤ current ∧
        enforcePass comparator.less nHeight pcheckpoint loop =
          some (⟨⟨loop.candidates, loop.it + 1⟩,
            if loop.chainMostWork ≤ current ∧
                nChainWork loop.chainMostWork < nChainWork current then
              current
            else loop.chainMostWork⟩, false)) ∨
      Forks pcheckpoint current ∧
        ∃ candidates : List CBlockIndex,
          enforcePass comparator.less nHeight pcheckpoint loop =
              some (⟨⟨candidates, 0⟩, loop.chainMostWork⟩, false) ∧
            candidates.Sublist loop.candidates ∧
            candidates.length < loop.candidates.length ∧
            ∀ pindex, pindex ∈ candidates ↔
              pindex ∈ loop.candidates ∧
                ¬ (pindex ≤ current ∧ ¬ pindex ≤ pcheckpoint) := by
  have member : current ∈ loop.candidates := Descending.current_mem found
  rcases isFork_of_outside (rooted current member) (onChain.trans above)
      outside with
    ⟨pIndexCheck, checked, fork⟩
  have short := fork_height_lt_iff fork above
  by_cases descends : pcheckpoint ≤ current
  · refine Or.inl ⟨descends, ?_⟩
    rw [enforcePass]
    simp only [found, outside, if_false, high, checked]
    rw [if_neg fun lower => short.mp lower descends, moveTip_of_fork fork]
  · have strict : pIndexCheck < current := by
      refine lt_of_le_of_ne fork.onTip ?_
      rintro rfl
      exact outside fork.onMostWork
    refine Or.inr ⟨⟨fun inside => outside (inside.trans above), descends⟩,
      (sweepPath pIndexCheck current loop.toSweep).candidates, ?_,
      sweepPath_sublist _ _ _, length_sweepPath_lt member strict, ?_⟩
    · rw [enforcePass]
      simp only [found, outside, if_false, high, checked]
      rw [if_pos (short.mpr descends), moveTip_self_of_fork fork]
      rfl
    · intro pindex
      rw [mem_sweepPath, branch_iff fork above descends]

/-! ## What has been erased -/

/-- The candidates that are left lack only branches that the loop meets. -/
structure Held
    (comparator : Comparator) (pcheckpoint : CBlockIndex)
    (candidates remaining : List CBlockIndex) : Prop where
  shorter : remaining.Sublist candidates
  erased :
    ∀ pindex ∈ candidates, pindex ∉ remaining →
      Erased comparator pcheckpoint candidates pindex
  closed :
    ∀ pindex ∈ candidates, pindex ∉ remaining →
      ∀ other ∈ candidates, other ≤ pindex → ¬ other ≤ pcheckpoint →
        other ∉ remaining

variable {remaining next : List CBlockIndex}

theorem Held.refl (candidates : List CBlockIndex) :
    Held comparator pcheckpoint candidates candidates :=
  ⟨List.Sublist.refl _, fun _ member absent => absurd member absent,
    fun _ member absent => absurd member absent⟩

/-- Candidates that are connected with the checkpoint are never erased. -/
theorem Held.mem_of_connected
    {pindex : CBlockIndex}
    (held : Held comparator pcheckpoint candidates remaining)
    (member : pindex ∈ candidates)
    (connected : pindex ≤ pcheckpoint ∨ pcheckpoint ≤ pindex) :
    pindex ∈ remaining := by
  by_contra absent
  rcases held.erased pindex member absent with ⟨met, isMet, below, off⟩
  rcases connected with inside | above
  · exact off inside
  · rcases isMet with early | late
    · exact early.forks.2 (above.trans below)
    · exact late.forks.2 (above.trans below)

theorem Held.erase
    (held : Held comparator pcheckpoint candidates remaining)
    (isMet :
      Early comparator pcheckpoint candidates met ∨
        Late comparator pcheckpoint candidates met)
    (fewer : next.Sublist remaining)
    (members :
      ∀ pindex, pindex ∈ next ↔
        pindex ∈ remaining ∧ ¬ (pindex ≤ met ∧ ¬ pindex ≤ pcheckpoint)) :
    Held comparator pcheckpoint candidates next where
  shorter := fewer.trans held.shorter
  erased := by
    intro pindex member absent
    by_cases earlier : pindex ∈ remaining
    · rw [members, not_and, not_not] at absent
      exact ⟨met, isMet, absent earlier⟩
    · exact held.erased pindex member earlier
  closed := by
    intro pindex member absent other isOther below off
    by_cases earlier : pindex ∈ remaining
    · rw [members, not_and, not_not] at absent
      rw [members]
      exact fun stays => stays.2 ⟨below.trans (absent earlier).1, off⟩
    · exact fun stays =>
        held.closed pindex member earlier other isOther below off
          (fewer.subset stays)

/-- Where the loop leaves the candidates and the tip. -/
structure Final
    (comparator : Comparator) (pcheckpoint : CBlockIndex)
    (candidates : List CBlockIndex) (loop : Enforcement) : Prop where
  shorter : loop.candidates.Sublist candidates
  mostWork :
    loop.chainMostWork = pcheckpoint ∨
      pcheckpoint < loop.chainMostWork ∧ loop.chainMostWork ∈ candidates
  members :
    ∀ pindex, pindex ∈ loop.candidates ↔
      pindex ∈ candidates ∧
        ¬ Erased comparator pcheckpoint candidates pindex

theorem Held.final
    {loop : Enforcement}
    (held : Held comparator pcheckpoint candidates loop.candidates)
    (mostWork :
      loop.chainMostWork = pcheckpoint ∨
        Leader comparator pcheckpoint candidates loop.chainMostWork)
    (complete :
      ∀ met,
        Early comparator pcheckpoint candidates met ∨
            Late comparator pcheckpoint candidates met →
          met ∉ loop.candidates) :
    Final comparator pcheckpoint candidates loop where
  shorter := held.shorter
  mostWork := mostWork.imp_right fun leader => ⟨leader.above, leader.member⟩
  members := by
    intro pindex
    constructor
    · intro member
      refine ⟨held.shorter.subset member, ?_⟩
      rintro ⟨met, isMet, below, off⟩
      have isCandidate : met ∈ candidates := by
        rcases isMet with early | late
        · exact early.member
        · exact late.member
      exact held.closed met isCandidate (complete met isMet) pindex
        (held.shorter.subset member) below off member
    · rintro ⟨member, stays⟩
      by_contra absent
      exact stays (held.erased pindex member absent)

/-! ## The phases of the loop -/

/-- The tip has not moved, and no descendant that is left behind can move it. -/
structure Searching
    (comparator : Comparator) (pcheckpoint : CBlockIndex)
    (candidates : List CBlockIndex) (loop : Enforcement) : Prop where
  held : Held comparator pcheckpoint candidates loop.candidates
  dead :
    ∀ pindex ∈ candidates, pindex ∉ loop.candidates →
      ¬ Alive comparator pcheckpoint candidates pindex
  mostWork : loop.chainMostWork = pcheckpoint
  passed :
    ∀ pindex ∈ leftBehind comparator loop.candidates loop.it,
      pcheckpoint < pindex ∧
        ¬ nChainWork pcheckpoint < nChainWork pindex

/-- The tip is the best candidate that is left. -/
structure Leads
    (comparator : Comparator) (pcheckpoint : CBlockIndex)
    (candidates : List CBlockIndex) (loop : Enforcement) : Prop where
  held : Held comparator pcheckpoint candidates loop.candidates
  leader : Leader comparator pcheckpoint candidates loop.chainMostWork
  greatest :
    ∀ pindex ∈ loop.candidates,
      comparator.rank pindex ≤ comparator.rank loop.chainMostWork

/-- The tip has moved, and only its rivals above the checkpoint are passed. -/
structure Moved
    (comparator : Comparator) (pcheckpoint : CBlockIndex)
    (candidates : List CBlockIndex) (loop : Enforcement) : Prop
    extends Leads comparator pcheckpoint candidates loop where
  dead :
    ∀ pindex ∈ candidates, pindex ∉ loop.candidates →
      ¬ Alive comparator pcheckpoint candidates pindex
  reached :
    loop.chainMostWork ∈ leftBehind comparator loop.candidates loop.it
  passed :
    ∀ pindex ∈ leftBehind comparator loop.candidates loop.it,
      pcheckpoint ≤ pindex ∧
        (pindex = loop.chainMostWork ∨ ¬ pindex ≤ loop.chainMostWork)

/-- A branch has been erased after the tip had moved. -/
structure Stopped
    (comparator : Comparator) (pcheckpoint : CBlockIndex)
    (candidates : List CBlockIndex) (loop : Enforcement) : Prop
    extends Leads comparator pcheckpoint candidates loop where
  atStart : loop.it = 0
  complete :
    ∀ met,
      Early comparator pcheckpoint candidates met ∨
          Late comparator pcheckpoint candidates met →
        met ∉ loop.candidates

/-- The state of the loop between two passes. -/
inductive Phase
    (comparator : Comparator) (pcheckpoint : CBlockIndex)
    (candidates : List CBlockIndex) (loop : Enforcement) : Prop where
  | searching (phase : Searching comparator pcheckpoint candidates loop)
  | moved (phase : Moved comparator pcheckpoint candidates loop)
  | stopped (phase : Stopped comparator pcheckpoint candidates loop)

/-- The loop goes on or is over as it should be. -/
def Advances
    (comparator : Comparator) (nHeight : Nat) (pcheckpoint : CBlockIndex)
    (candidates : List CBlockIndex) (loop : Enforcement) : Prop :=
  ∃ after done,
    enforcePass comparator.less nHeight pcheckpoint loop =
        some (after, done) ∧
      (done = false →
        Phase comparator pcheckpoint candidates after ∧
          Descending.stepsLeft candidates.length after.candidates after.it <
            Descending.stepsLeft candidates.length loop.candidates loop.it) ∧
      (done = true → Final comparator pcheckpoint candidates after)

theorem advances_of_none
    {loop : Enforcement}
    (found : (descending comparator.less loop.candidates)[loop.it]? = none)
    (final : Final comparator pcheckpoint candidates loop) :
    Advances comparator nHeight pcheckpoint candidates loop := by
  refine ⟨loop, true, ?_, by simp, fun _ => final⟩
  rw [enforcePass]
  simp only [found]

theorem advances_of_inside
    {loop : Enforcement}
    (found :
      (descending comparator.less loop.candidates)[loop.it]? = some current)
    (inside : current ≤ loop.chainMostWork)
    (final : Final comparator pcheckpoint candidates loop) :
    Advances comparator nHeight pcheckpoint candidates loop := by
  refine ⟨loop, true, ?_, by simp, fun _ => final⟩
  rw [enforcePass]
  simp only [found, inside, if_true]

theorem advances_of_step
    {loop : Enforcement} {chainMostWork : CBlockIndex}
    (found :
      (descending comparator.less loop.candidates)[loop.it]? = some current)
    (result :
      enforcePass comparator.less nHeight pcheckpoint loop =
        some (⟨⟨loop.candidates, loop.it + 1⟩, chainMostWork⟩, false))
    (phase :
      Phase comparator pcheckpoint candidates
        ⟨⟨loop.candidates, loop.it + 1⟩, chainMostWork⟩) :
    Advances comparator nHeight pcheckpoint candidates loop :=
  ⟨_, false, result,
    fun _ => ⟨phase, Descending.stepsLeft_succ found⟩, by simp⟩

theorem advances_of_erase
    {loop : Enforcement}
    (shorter : loop.candidates.Sublist candidates)
    (fewer : next.length < loop.candidates.length)
    (result :
      enforcePass comparator.less nHeight pcheckpoint loop =
        some (⟨⟨next, 0⟩, loop.chainMostWork⟩, false))
    (phase :
      Phase comparator pcheckpoint candidates
        ⟨⟨next, 0⟩, loop.chainMostWork⟩) :
    Advances comparator nHeight pcheckpoint candidates loop :=
  ⟨_, false, result,
    fun _ => ⟨phase, Descending.stepsLeft_erase fewer shorter.length_le⟩,
    by simp⟩

theorem mem_leftBehind_of_lt
    {loop : Enforcement} {pindex : CBlockIndex}
    (found :
      (descending comparator.less loop.candidates)[loop.it]? = some current)
    (member : pindex ∈ loop.candidates)
    (higher : comparator.rank current < comparator.rank pindex) :
    pindex ∈ leftBehind comparator loop.candidates loop.it :=
  Descending.mem_passed_of_rank_lt (fun _ _ => comparator.less_iff) found
    member higher

theorem rank_le_of_leftBehind
    {loop : Enforcement} {pindex : CBlockIndex}
    (found :
      (descending comparator.less loop.candidates)[loop.it]? = some current)
    (behind : pindex ∈ leftBehind comparator loop.candidates loop.it) :
    comparator.rank current ≤ comparator.rank pindex :=
  Descending.rank_le_of_mem_passed (fun _ _ => comparator.less_iff) found
    behind

/-- The candidates below a leader on its chain are never erased. -/
theorem Held.mem_of_lt_leader
    {pindex : CBlockIndex}
    (held : Held comparator pcheckpoint candidates remaining)
    (isLeader : Leader comparator pcheckpoint candidates leader)
    (member : pindex ∈ candidates) (below : pindex < leader) :
    pindex ∈ remaining :=
  held.mem_of_connected member
    (Lineage.le_total_of_le below.le isLeader.above.le)

/-- While the tip has not moved, what outranks a candidate cannot be a leader. -/
theorem Searching.not_leader_of_lt
    {loop : Enforcement} {pindex : CBlockIndex}
    (searching : Searching comparator pcheckpoint candidates loop)
    (found :
      (descending comparator.less loop.candidates)[loop.it]? = some current)
    (isLeader : Leader comparator pcheckpoint candidates pindex) :
    comparator.rank pindex ≤ comparator.rank current := by
  by_contra higher
  have member :=
    searching.held.mem_of_connected isLeader.member (Or.inr isLeader.above.le)
  have behind := mem_leftBehind_of_lt found member (not_le.mp higher)
  exact (searching.passed pindex behind).2 isLeader.work

/-- A fork that is met before the tip has moved is met early. -/
theorem Searching.early
    {loop : Enforcement}
    (searching : Searching comparator pcheckpoint candidates loop)
    (found :
      (descending comparator.less loop.candidates)[loop.it]? = some current)
    (forks : Forks pcheckpoint current) :
    Early comparator pcheckpoint candidates current := by
  have member : current ∈ loop.candidates := Descending.current_mem found
  refine ⟨searching.held.shorter.subset member, forks, ?_⟩
  intro other isOther stops
  have other_ne : other ≠ current := by
    rintro rfl
    rcases stops with inside | isLeader
    · exact forks.1 inside
    · exact forks.2 isLeader.above.le
  rw [comparator.less_iff]
  apply comparator.rank_lt_of_ne other_ne
  rcases stops with inside | isLeader
  · by_contra higher
    have kept := searching.held.mem_of_connected isOther (Or.inl inside)
    have behind := mem_leftBehind_of_lt found kept (not_le.mp higher)
    exact absurd inside (not_le_of_gt (searching.passed other behind).1)
  · exact searching.not_leader_of_lt found isLeader

/-- A descendant with more work than the checkpoint is the leader. -/
theorem Searching.leads
    {loop : Enforcement}
    (searching : Searching comparator pcheckpoint candidates loop)
    (found :
      (descending comparator.less loop.candidates)[loop.it]? = some current)
    (above : pcheckpoint < current)
    (work : nChainWork pcheckpoint < nChainWork current) :
    Leads comparator pcheckpoint candidates
      ⟨⟨loop.candidates, loop.it + 1⟩, current⟩ := by
  have member : current ∈ loop.candidates := Descending.current_mem found
  have greatest :
      ∀ pindex ∈ loop.candidates,
        comparator.rank pindex ≤ comparator.rank current := by
    intro pindex isCandidate
    by_contra higher
    have behind :=
      mem_leftBehind_of_lt found isCandidate (not_le.mp higher)
    exact (searching.passed pindex behind).2
      (comparator.work_lt work (not_le.mp higher).le)
  refine ⟨searching.held, ⟨searching.held.shorter.subset member, above, work,
    ?_⟩, greatest⟩
  intro other isOther connected
  rw [comparator.not_less_iff]
  exact greatest other (searching.held.mem_of_connected isOther connected)

/-- A search that ends has met everything it meets. -/
theorem Searching.final
    {loop : Enforcement}
    (searching : Searching comparator pcheckpoint candidates loop)
    (ended :
      (descending comparator.less loop.candidates)[loop.it]? = none ∨
        (descending comparator.less loop.candidates)[loop.it]? =
            some current ∧ current ≤ pcheckpoint) :
    Final comparator pcheckpoint candidates loop := by
  refine searching.held.final (Or.inl searching.mostWork) ?_
  intro met isMet member
  have forks : Forks pcheckpoint met := by
    rcases isMet with early | late
    · exact early.forks
    · exact late.forks
  have notBehind :
      met ∉ leftBehind comparator loop.candidates loop.it := fun behind =>
    forks.2 (searching.passed met behind).1.le
  rcases ended with nothing | ⟨found, inside⟩
  · exact notBehind (Descending.mem_passed_of_none nothing member)
  have isCurrent :=
    searching.held.shorter.subset (Descending.current_mem found)
  rcases isMet with early | late
  · have higher := early.ahead current isCurrent (Or.inl inside)
    rw [comparator.less_iff] at higher
    exact notBehind (mem_leftBehind_of_lt found member higher)
  · rcases late.ahead with ⟨leader, isLeader, -⟩
    have upper := searching.not_leader_of_lt found isLeader
    have lower := comparator.not_less_iff.mp
      (isLeader.best current isCurrent (Or.inl inside))
    have leader_ne : leader ≠ current := by
      rintro rfl
      exact absurd inside (not_le_of_gt isLeader.above)
    exact absurd lower
      (not_le.mpr (comparator.rank_lt_of_ne leader_ne upper))

variable {loop : Enforcement}

/-- No block that is met early is left when the tip has moved. -/
theorem Leads.not_early
    (leads : Leads comparator pcheckpoint candidates loop)
    (early : Early comparator pcheckpoint candidates met) :
    met ∉ loop.candidates := by
  intro member
  have higher := early.ahead _ leads.leader.member (Or.inr leads.leader)
  rw [comparator.less_iff] at higher
  exact absurd (leads.greatest met member) (not_le.mpr higher)

theorem Moved.late
    (moved : Moved comparator pcheckpoint candidates loop)
    (found :
      (descending comparator.less loop.candidates)[loop.it]? = some current)
    (forks : Forks pcheckpoint current)
    (outside : ¬ current ≤ loop.chainMostWork) :
    Late comparator pcheckpoint candidates current := by
  have held := moved.held
  have member : current ∈ loop.candidates := Descending.current_mem found
  have isCandidate := held.shorter.subset member
  refine ⟨isCandidate, forks, ?_, ?_, loop.chainMostWork, moved.leader, ?_⟩
  · intro early isEarly below
    exact held.closed early isEarly.member
      (moved.toLeads.not_early isEarly) current
      isCandidate below forks.1 member
  · intro other isOther otherForks alive
    rw [comparator.not_less_iff]
    by_contra higher
    have kept : other ∈ loop.candidates := by
      by_contra absent
      exact moved.dead other isOther absent alive
    exact otherForks.2
      (moved.passed other
        (mem_leftBehind_of_lt found kept (not_le.mp higher))).1
  · intro other isOther below
    have kept := held.mem_of_lt_leader moved.leader isOther below
    have other_ne : other ≠ current := by
      rintro rfl
      exact outside below.le
    rw [comparator.less_iff]
    apply comparator.rank_lt_of_ne other_ne
    by_contra higher
    rcases (moved.passed other
        (mem_leftBehind_of_lt found kept (not_le.mp higher))).2 with
      same | apart
    · exact below.ne same
    · exact apart below.le

theorem Moved.final
    (moved : Moved comparator pcheckpoint candidates loop)
    (distinct : candidates.Nodup)
    (ended :
      (descending comparator.less loop.candidates)[loop.it]? = none ∨
        (descending comparator.less loop.candidates)[loop.it]? =
            some current ∧ current ≤ loop.chainMostWork) :
    Final comparator pcheckpoint candidates loop := by
  refine moved.held.final (Or.inr moved.leader) ?_
  rintro met (early | late) member
  · exact moved.toLeads.not_early early member
  have notBehind :
      met ∉ leftBehind comparator loop.candidates loop.it := fun behind =>
    late.forks.2 (moved.passed met behind).1
  rcases ended with nothing | ⟨found, inside⟩
  · exact notBehind (Descending.mem_passed_of_none nothing member)
  rcases late.ahead with ⟨leader, isLeader, ahead⟩
  rw [isLeader.unique moved.leader] at ahead
  have current_ne : current ≠ loop.chainMostWork := by
    intro same
    have fresh := Descending.current_not_mem_passed found
      (distinct.sublist moved.held.shorter)
    rw [same] at fresh
    exact fresh moved.reached
  have higher :=
    ahead current
      (moved.held.shorter.subset (Descending.current_mem found))
      (lt_of_le_of_ne inside current_ne)
  rw [comparator.less_iff] at higher
  exact notBehind (mem_leftBehind_of_lt found member higher)

theorem Stopped.pass
    (stopped : Stopped comparator pcheckpoint candidates loop) :
    Advances comparator nHeight pcheckpoint candidates loop := by
  have final : Final comparator pcheckpoint candidates loop :=
    stopped.held.final (Or.inr stopped.leader) stopped.complete
  cases found : (descending comparator.less loop.candidates)[loop.it]? with
  | none => exact advances_of_none found final
  | some current =>
      refine advances_of_inside found ?_ final
      have kept :=
        stopped.held.mem_of_connected stopped.leader.member
          (Or.inr stopped.leader.above.le)
      by_contra outside
      have current_ne : current ≠ loop.chainMostWork := by
        rintro rfl
        exact outside le_rfl
      have higher := comparator.rank_lt_of_ne current_ne
        (stopped.greatest current (Descending.current_mem found))
      have behind := mem_leftBehind_of_lt found kept higher
      rw [stopped.atStart, leftBehind, Descending.passed_zero] at behind
      cases behind

section Passes

variable
  (high : ¬ pcheckpoint.height < nHeight)
  (rooted : ∀ pindex ∈ candidates, genesis ≤ pindex)
  (onChain : genesis ≤ pcheckpoint)

include high rooted onChain

theorem Searching.pass
    (searching : Searching comparator pcheckpoint candidates loop) :
    Advances comparator nHeight pcheckpoint candidates loop := by
  cases found : (descending comparator.less loop.candidates)[loop.it]? with
  | none =>
      exact advances_of_none found
        (@Searching.final _ _ pcheckpoint _ _ searching (Or.inl found))
  | some current =>
      by_cases inside : current ≤ loop.chainMostWork
      · refine advances_of_inside found inside
          (searching.final (Or.inr ⟨found, ?_⟩))
        rw [← searching.mostWork]
        exact inside
      have held := searching.held
      rcases enforcePass_high high
          (fun pindex member => rooted pindex (held.shorter.subset member))
          onChain searching.mostWork.ge found inside with
        ⟨descends, result⟩ | ⟨forks, next, result, fewer, less, members⟩
      · rw [searching.mostWork] at result inside
        have above : pcheckpoint < current :=
          lt_of_le_of_ne descends fun same => inside same.ge
        by_cases work : nChainWork pcheckpoint < nChainWork current
        · have leads := searching.leads found above work
          rw [if_pos ⟨descends, work⟩] at result
          refine advances_of_step found result (.moved ⟨leads, searching.dead,
            (Descending.mem_passed_succ found).mpr (Or.inr rfl), ?_⟩)
          intro pindex behind
          rcases (Descending.mem_passed_succ found).mp behind with
            earlier | rfl
          · exact absurd
              (comparator.work_lt work (rank_le_of_leftBehind found earlier))
              (searching.passed pindex earlier).2
          · exact ⟨descends, Or.inl rfl⟩
        · rw [if_neg fun moves => work moves.2] at result
          refine advances_of_step found result (.searching ⟨held,
            searching.dead, rfl, ?_⟩)
          intro pindex behind
          rcases (Descending.mem_passed_succ found).mp behind with
            earlier | rfl
          · exact searching.passed pindex earlier
          · exact ⟨above, work⟩
      · have early := searching.early found forks
        refine advances_of_erase held.shorter less result (.searching
          ⟨held.erase (Or.inl early) fewer members, ?_, searching.mostWork,
            ?_⟩)
        · intro pindex member absent
          by_cases earlier : pindex ∈ loop.candidates
          · rw [members, not_and, not_not] at absent
            exact fun alive => alive current early (absent earlier).1
          · exact searching.dead pindex member earlier
        · intro pindex behind
          rw [leftBehind, Descending.passed_zero] at behind
          cases behind

theorem Moved.pass
    (distinct : candidates.Nodup)
    (moved : Moved comparator pcheckpoint candidates loop) :
    Advances comparator nHeight pcheckpoint candidates loop := by
  cases found : (descending comparator.less loop.candidates)[loop.it]? with
  | none =>
      exact advances_of_none found
        (@Moved.final _ _ pcheckpoint _ _ moved distinct (Or.inl found))
  | some current =>
      by_cases inside : current ≤ loop.chainMostWork
      · exact advances_of_inside found inside
          (moved.final distinct (Or.inr ⟨found, inside⟩))
      have held := moved.held
      have member : current ∈ loop.candidates := Descending.current_mem found
      rcases enforcePass_high high
          (fun pindex member => rooted pindex (held.shorter.subset member))
          onChain moved.leader.above.le found inside with
        ⟨descends, result⟩ | ⟨forks, next, result, fewer, less, members⟩
      · have stays :
            ¬ (loop.chainMostWork ≤ current ∧
              nChainWork loop.chainMostWork < nChainWork current) := by
          rintro ⟨-, work⟩
          exact BitVec.lt_irrefl _
            (comparator.work_lt work (moved.greatest current member))
        rw [if_neg stays] at result
        refine advances_of_step found result (.moved ⟨⟨held, moved.leader,
          moved.greatest⟩, moved.dead,
          (Descending.mem_passed_succ found).mpr (Or.inl moved.reached), ?_⟩)
        intro pindex behind
        rcases (Descending.mem_passed_succ found).mp behind with
          earlier | rfl
        · exact moved.passed pindex earlier
        · exact ⟨descends, Or.inr inside⟩
      · have late := moved.late found forks inside
        have fewerHeld := held.erase (Or.inr late) fewer members
        refine advances_of_erase held.shorter less result (.stopped
          ⟨⟨fewerHeld, moved.leader, fun pindex isNext =>
            moved.greatest pindex (fewer.subset isNext)⟩, rfl, ?_⟩)
        rintro met (early | otherLate) isNext
        · exact moved.toLeads.not_early early (fewer.subset isNext)
        · rw [otherLate.unique late] at isNext
          exact ((members current).mp isNext).2 ⟨le_rfl, forks.1⟩

/-- The candidates that a checkpoint at or above the height leaves. -/
theorem enforcePass_run_high
    (comparator : Comparator) (distinct : candidates.Nodup) :
    ∃ loop,
      Loop.run (enforcePass comparator.less nHeight pcheckpoint)
          (passes candidates) ⟨⟨candidates, 0⟩, pcheckpoint⟩ = some loop ∧
        Final comparator pcheckpoint candidates loop := by
  refine Loop.run_reaches (Phase comparator pcheckpoint candidates)
    (fun loop =>
      Descending.stepsLeft candidates.length loop.candidates loop.it)
    ?_ (.searching ⟨.refl candidates, ?_, rfl, ?_⟩)
    Descending.stepsLeft_zero_lt
  · intro loop phase
    cases phase with
    | searching phase => exact phase.pass high rooted onChain
    | moved phase => exact phase.pass high rooted onChain distinct
    | stopped phase => exact phase.pass
  · exact fun pindex member absent => absurd member absent
  · intro pindex behind
    rw [leftBehind, Descending.passed_zero] at behind
    cases behind

end Passes

end DSValue.Chain.BranchSweep

import DSValue.Chain.Runs

/-!
# The candidates that a checkpoint leaves

`CheckActiveChain` goes through the candidates from the best one on and starts
again after each erasure.  Without a known checkpoint it sees them all; with a
checkpoint below the height it is over at the first candidate on the chain of
the checkpoint.
-/

namespace DSValue.Chain.CandidateSweep

open DSValue.Lib
open DSValue.Core.Serialize
open DSValue.Core.Header
open DSValue.Core.Transaction
open DSValue.Consensus.CheckLottoResult
open DSValue.Consensus.CheckBlock
open DSValue.Chain.BestChain
open DSValue.Chain.Activation
open DSValue.Chain.Termination
open DSValue.Chain.BlockIndex
open DSValue.Chain.Reorganisation
open DSValue.Chain.CheckActiveChain
open DSValue.Chain.Containment

/-- The comparator of some fields. -/
structure Comparator where
  fields : IndexFields CBlockIndex
  work : fields.nChainWork = nChainWork
  addresses : Function.Injective fields.address

/-- The comparator in a state. -/
def comparatorOf (machine : Machine) (state : TreeState) : Comparator :=
  ⟨state.fields machine, rfl, machine.addresses⟩

namespace Comparator

variable (comparator : Comparator) {first second third : CBlockIndex}

/-- `CBlockIndexWorkComparator`. -/
def less (first second : CBlockIndex) : Bool :=
  blockIndexWorkComparator comparator.fields first second

/-- The rank of an index. -/
def rank (pindex : CBlockIndex) : ℕ ×ₗ ℕ ×ₗ ℤ ×ₗ ℤ :=
  rankOf comparator.fields pindex

theorem less_iff :
    comparator.less first second = true ↔
      comparator.rank first < comparator.rank second :=
  blockIndexWorkComparator_iff comparator.fields first second

theorem not_less_iff :
    comparator.less first second = false ↔
      comparator.rank second ≤ comparator.rank first := by
  rw [Bool.eq_false_iff, Ne, less_iff, not_lt]

theorem rank_lt_of_ne
    (different : first ≠ second)
    (lower : comparator.rank first ≤ comparator.rank second) :
    comparator.rank first < comparator.rank second := by
  refine lt_of_le_of_ne lower fun same => different ?_
  exact
    (ranks_blockIndexWorkComparator comparator.fields
      comparator.addresses).injective same

theorem work_le (lower : comparator.rank first ≤ comparator.rank second) :
    nChainWork first ≤ nChainWork second :=
  nChainWork_le_of_rank comparator.work lower

theorem work_lt
    (more : nChainWork first < nChainWork second)
    (lower : comparator.rank second ≤ comparator.rank third) :
    nChainWork first < nChainWork third := by
  have bound := comparator.work_le lower
  rw [BitVec.lt_def] at more ⊢
  exact more.trans_le bound

end Comparator

/-- The position of a loop over the candidates. -/
abbrev leftBehind
    (comparator : Comparator) (candidates : List CBlockIndex) (it : Nat) :
    List CBlockIndex :=
  Descending.passed comparator.less candidates it

variable {comparator : Comparator} {nHeight : Nat} {hash : Uint256}
  {machine : Machine} {pcheckpoint current : CBlockIndex}
  {candidates : List CBlockIndex}

/-! ## No known checkpoint -/

/-- The block is above the height and descends from a block with another hash. -/
def Wrong
    (machine : Machine) (nHeight : Nat) (hash : Uint256)
    (pindex : CBlockIndex) : Prop :=
  nHeight < pindex.height ∧ hasHash machine pindex nHeight hash = false

theorem hasHash_eq_of_at?
    {pindex ancestor : CBlockIndex}
    (found : pindex.at? nHeight = some ancestor) :
    hasHash machine pindex nHeight hash =
      decide (machine.blockHash ancestor.item = hash) := by
  simp [hasHash, found]

/-- Descendants of one block are right or wrong together. -/
theorem hasHash_of_le
    {ancestor pindex : CBlockIndex} (below : ancestor ≤ pindex)
    (high : nHeight ≤ ancestor.height) :
    hasHash machine pindex nHeight hash =
      hasHash machine ancestor nHeight hash := by
  rw [hasHash, hasHash, ← Lineage.at?_of_at? (Lineage.le_iff_at?.mp below) high]

/-- What the loop without a checkpoint has done so far. -/
structure Removing
    (comparator : Comparator) (machine : Machine) (nHeight : Nat)
    (hash : Uint256) (candidates : List CBlockIndex) (sweep : Sweep) :
    Prop where
  shorter : sweep.candidates.Sublist candidates
  erased :
    ∀ pindex ∈ candidates, pindex ∉ sweep.candidates →
      Wrong machine nHeight hash pindex
  passed :
    ∀ pindex ∈ leftBehind comparator sweep.candidates sweep.it,
      ¬ Wrong machine nHeight hash pindex

theorem Removing.pass
    {sweep : Sweep}
    (removing :
      Removing comparator machine nHeight hash candidates sweep) :
    ∃ next done,
      removePass machine comparator.less nHeight hash sweep =
          some (next, done) ∧
        (done = false →
          Removing comparator machine nHeight hash candidates next ∧
            Descending.stepsLeft candidates.length next.candidates next.it <
              Descending.stepsLeft candidates.length sweep.candidates
                sweep.it) ∧
        (done = true →
          next.candidates.Sublist candidates ∧
            ∀ pindex, pindex ∈ next.candidates ↔
              pindex ∈ candidates ∧ ¬ Wrong machine nHeight hash pindex) := by
  rw [removePass]
  cases found : (descending comparator.less sweep.candidates)[sweep.it]? with
  | none =>
      refine ⟨sweep, true, rfl, by simp, fun _ => ⟨removing.shorter, ?_⟩⟩
      intro pindex
      constructor
      · intro member
        exact ⟨removing.shorter.subset member,
          removing.passed pindex
            (Descending.mem_passed_of_none found member)⟩
      · rintro ⟨member, right⟩
        by_contra absent
        exact right (removing.erased pindex member absent)
  | some current =>
      have member : current ∈ sweep.candidates := Descending.current_mem found
      dsimp only
      split_ifs with wrong
      · obtain ⟨ancestor, isAncestor⟩ :
            ∃ ancestor, current.at? nHeight = some ancestor := by
          cases isAncestor : current.at? nHeight with
          | none => simp [isAncestor] at wrong
          | some ancestor => exact ⟨ancestor, rfl⟩
        simp only [isAncestor, Option.getD_some] at wrong ⊢
        have below := Lineage.le_of_at? isAncestor
        have height := (Lineage.at?_height isAncestor).1
        have above : ancestor < current :=
          lt_of_le_of_ne below (Ne.symm wrong.2)
        refine ⟨_, false, rfl, fun _ => ⟨⟨?_, ?_, ?_⟩, ?_⟩, by simp⟩
        · exact (sweepPath_sublist _ _ _).trans removing.shorter
        · intro pindex isCandidate absent
          by_cases earlier : pindex ∈ sweep.candidates
          · rw [mem_sweepPath, not_and, not_not] at absent
            rcases absent earlier with ⟨higher, under⟩
            refine ⟨by rw [← height]; exact Lineage.height_lt_of_lt higher, ?_⟩
            rw [hasHash_of_le higher.le height.ge,
              hasHash_eq_of_at?
                (by rw [← height]; exact Lineage.at?_self ancestor),
              decide_eq_false_iff_not]
            exact wrong.1
          · exact removing.erased pindex isCandidate earlier
        · intro pindex isPassed
          rw [show (sweepPath ancestor current sweep).it = 0 from rfl,
            leftBehind, Descending.passed_zero] at isPassed
          cases isPassed
        · exact Descending.stepsLeft_erase (length_sweepPath_lt member above)
            removing.shorter.length_le
      · refine ⟨_, false, rfl, fun _ => ⟨⟨removing.shorter, removing.erased, ?_⟩,
          Descending.stepsLeft_succ found⟩, by simp⟩
        intro pindex isPassed
        rcases (Descending.mem_passed_succ found).mp isPassed with
          earlier | rfl
        · exact removing.passed pindex earlier
        · rintro ⟨high, differs⟩
          rcases Lineage.at?_isSome high.le with ⟨ancestor, isAncestor⟩
          rw [hasHash_eq_of_at? isAncestor, decide_eq_false_iff_not]
            at differs
          simp only [isAncestor, Option.getD_some] at wrong
          refine wrong ⟨differs, ?_⟩
          rintro rfl
          exact absurd (Lineage.at?_height isAncestor).1 high.ne'

/-- Without a checkpoint all wrong blocks are erased. -/
theorem removePass_run
    (comparator : Comparator) (machine : Machine) (nHeight : Nat)
    (hash : Uint256) (candidates : List CBlockIndex) :
    ∃ sweep,
      Loop.run (removePass machine comparator.less nHeight hash)
          (passes candidates) ⟨candidates, 0⟩ = some sweep ∧
        sweep.candidates.Sublist candidates ∧
        ∀ pindex, pindex ∈ sweep.candidates ↔
          pindex ∈ candidates ∧ ¬ Wrong machine nHeight hash pindex := by
  refine Loop.run_reaches (Removing comparator machine nHeight hash candidates)
    (fun sweep =>
      Descending.stepsLeft candidates.length sweep.candidates sweep.it)
    (fun _ removing => removing.pass) ⟨List.Sublist.refl _, ?_, ?_⟩
    Descending.stepsLeft_zero_lt
  · exact fun pindex member absent => absurd member absent
  · intro pindex isPassed
    rw [leftBehind, Descending.passed_zero] at isPassed
    cases isPassed

/-! ## A checkpoint below the height -/

/-- The block is not below the height and outranks the chain of the checkpoint. -/
def Outranks
    (comparator : Comparator) (pcheckpoint : CBlockIndex)
    (candidates : List CBlockIndex) (pindex : CBlockIndex) : Prop :=
  ∀ other ∈ candidates, other ≤ pcheckpoint →
    comparator.less other pindex = true

/-- What the loop has done so far when the checkpoint is below the height. -/
structure Lowering
    (comparator : Comparator) (nHeight : Nat) (pcheckpoint : CBlockIndex)
    (candidates : List CBlockIndex) (loop : Enforcement) : Prop where
  shorter : loop.candidates.Sublist candidates
  mostWork : loop.chainMostWork = pcheckpoint
  erased :
    ∀ pindex ∈ candidates, pindex ∉ loop.candidates →
      nHeight ≤ pindex.height ∧
        Outranks comparator pcheckpoint candidates pindex
  passed :
    ∀ pindex ∈ leftBehind comparator loop.candidates loop.it,
      ¬ pindex ≤ pcheckpoint ∧ pindex.height < nHeight

theorem Lowering.kept
    {loop : Enforcement} {pindex : CBlockIndex}
    (lowering : Lowering comparator nHeight pcheckpoint candidates loop)
    (low : pcheckpoint.height < nHeight) (member : pindex ∈ candidates)
    (below : pindex ≤ pcheckpoint) : pindex ∈ loop.candidates := by
  by_contra absent
  have high := (lowering.erased pindex member absent).1
  have height := Lineage.height_le_of_le below
  omega

theorem length_filter_ne_lt
    (member : current ∈ candidates) :
    (candidates.filter (· ≠ current)).length < candidates.length := by
  refine lt_of_le_of_ne List.filter_sublist.length_le fun same => ?_
  have whole := List.filter_sublist.eq_of_length same
  rw [← whole] at member
  simp at member

theorem Lowering.pass
    {loop : Enforcement}
    (lowering : Lowering comparator nHeight pcheckpoint candidates loop)
    (low : pcheckpoint.height < nHeight) :
    ∃ next done,
      enforcePass comparator.less nHeight pcheckpoint loop =
          some (next, done) ∧
        (done = false →
          Lowering comparator nHeight pcheckpoint candidates next ∧
            Descending.stepsLeft candidates.length next.candidates next.it <
              Descending.stepsLeft candidates.length loop.candidates
                loop.it) ∧
        (done = true →
          next.candidates.Sublist candidates ∧
            next.chainMostWork = pcheckpoint ∧
            ∀ pindex, pindex ∈ next.candidates ↔
              pindex ∈ candidates ∧
                ¬ (nHeight ≤ pindex.height ∧
                  Outranks comparator pcheckpoint candidates pindex)) := by
  rw [enforcePass]
  cases found : (descending comparator.less loop.candidates)[loop.it]? with
  | none =>
      refine ⟨loop, true, rfl, by simp,
        fun _ => ⟨lowering.shorter, lowering.mostWork, ?_⟩⟩
      intro pindex
      constructor
      · intro member
        refine ⟨lowering.shorter.subset member, fun gone => ?_⟩
        have height :=
          (lowering.passed pindex
            (Descending.mem_passed_of_none found member)).2
        exact absurd gone.1 (not_le.mpr height)
      · rintro ⟨member, stays⟩
        by_contra absent
        exact stays (lowering.erased pindex member absent)
  | some current =>
      have member : current ∈ loop.candidates := Descending.current_mem found
      have ahead : ∀ other ∈ loop.candidates,
          comparator.rank current < comparator.rank other →
            ¬ other ≤ pcheckpoint ∧ other.height < nHeight := by
        intro other isOther higher
        exact lowering.passed other
          (Descending.mem_passed_of_rank_lt
            (fun _ _ => comparator.less_iff) found isOther higher)
      simp only [lowering.mostWork, low, if_true]
      split_ifs with inside high
      · refine ⟨loop, true, rfl, by simp,
          fun _ => ⟨lowering.shorter, lowering.mostWork, ?_⟩⟩
        intro pindex
        constructor
        · intro isCandidate
          refine ⟨lowering.shorter.subset isCandidate, fun gone => ?_⟩
          have higher :=
            gone.2 current (lowering.shorter.subset member) inside
          rw [comparator.less_iff] at higher
          exact absurd gone.1 (not_le.mpr (ahead pindex isCandidate higher).2)
        · rintro ⟨isCandidate, stays⟩
          by_contra absent
          exact stays (lowering.erased pindex isCandidate absent)
      · have gone :
            Outranks comparator pcheckpoint candidates current := by
          intro other isOther below
          rw [comparator.less_iff]
          by_contra notHigher
          have kept := lowering.kept low isOther below
          have other_ne : current ≠ other := by
            rintro rfl
            exact inside below
          have higher :=
            comparator.rank_lt_of_ne other_ne (not_lt.mp notHigher)
          exact (ahead other kept higher).1 below
        refine ⟨_, false, rfl, fun _ => ⟨⟨?_, rfl, ?_, ?_⟩, ?_⟩, by simp⟩
        · exact List.filter_sublist.trans lowering.shorter
        · intro pindex isCandidate absent
          by_cases same : pindex = current
          · rw [same]
            exact ⟨high, gone⟩
          · apply lowering.erased pindex isCandidate
            intro earlier
            exact absent (List.mem_filter.mpr ⟨earlier, by simpa using same⟩)
        · intro pindex isPassed
          rw [leftBehind, Descending.passed_zero] at isPassed
          cases isPassed
        · exact Descending.stepsLeft_erase (length_filter_ne_lt member)
            lowering.shorter.length_le
      · refine ⟨_, false, rfl,
          fun _ => ⟨⟨lowering.shorter, rfl, lowering.erased, ?_⟩,
            Descending.stepsLeft_succ found⟩, by simp⟩
        intro pindex isPassed
        rcases (Descending.mem_passed_succ found).mp isPassed with
          earlier | rfl
        · exact lowering.passed pindex earlier
        · exact ⟨inside, not_le.mp high⟩

/-- The candidates that a checkpoint below the height leaves. -/
theorem enforcePass_run_low
    (comparator : Comparator) (low : pcheckpoint.height < nHeight)
    (candidates : List CBlockIndex) :
    ∃ loop,
      Loop.run (enforcePass comparator.less nHeight pcheckpoint)
          (passes candidates) ⟨⟨candidates, 0⟩, pcheckpoint⟩ = some loop ∧
        loop.candidates.Sublist candidates ∧
        loop.chainMostWork = pcheckpoint ∧
        ∀ pindex, pindex ∈ loop.candidates ↔
          pindex ∈ candidates ∧
            ¬ (nHeight ≤ pindex.height ∧
              Outranks comparator pcheckpoint candidates pindex) := by
  refine Loop.run_reaches
    (Lowering comparator nHeight pcheckpoint candidates)
    (fun loop =>
      Descending.stepsLeft candidates.length loop.candidates loop.it)
    (fun _ lowering => lowering.pass low) ⟨List.Sublist.refl _, rfl, ?_, ?_⟩
    Descending.stepsLeft_zero_lt
  · exact fun pindex member absent => absurd member absent
  · intro pindex isPassed
    rw [leftBehind, Descending.passed_zero] at isPassed
    cases isPassed

end DSValue.Chain.CandidateSweep

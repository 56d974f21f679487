import DSValue.Chain.Runs
import DSValue.Lib.Descent

/-!
# Rolling back to the Bitcoin chain

`CheckLastBlockState` goes back from the tip over the blocks that name the
last five Bitcoin heights and cuts the active chain in front of the first
block with a wrong hash that it then meets.  The walk starts at the tip
whatever height it is given, so that a block that names none of the heights
hides everything below it.
-/

namespace DSValue.Chain.BitcoinRollback

open DSValue.Lib
open DSValue.Core.Serialize
open DSValue.Core.Header
open DSValue.Core.Transaction
open DSValue.Consensus.CheckLottoResult
open DSValue.Consensus.CheckBlock
open DSValue.Consensus.ConnectBlock
open DSValue.Consensus.QuietChain
open DSValue.Chain.BestChain
open DSValue.Chain.Activation
open DSValue.Chain.Passes
open DSValue.Chain.Termination
open DSValue.Chain.BlockIndex
open DSValue.Chain.Reorganisation
open DSValue.Chain.Runs

variable {machine : Machine} {state : TreeState} {bitcoin : BitcoinChain}
  {nCurBTCHeight : Int32} {tip start pindexBlock pprev : CBlockIndex}
  {less : CBlockIndex → CBlockIndex → Bool} {valid : CBlockIndex → Bool}

/-! ## The walk -/

/-- `mBitcoinHash.count(nBTCHeight) > 0`. -/
def names (pindex : CBlockIndex) (nBTCHeight : Int32) : Bool :=
  pindex.item.lottoHeader.mBitcoinHash.entries.any (·.1 = nBTCHeight)

theorem skipBlocks_eq (nBTCHeight : Int32) (pindex : CBlockIndex) :
    skipBlocks nBTCHeight pindex = Descent.skip names nBTCHeight pindex := by
  induction pindex with
  | root block => rfl
  | child pprev block inductionHypothesis =>
      rw [skipBlocks, Descent.skip, inductionHypothesis]
      rfl

theorem walk_eq (nCurBTCHeight : Int32) (tip : CBlockIndex) :
    ((recentHeights nCurBTCHeight).foldlM
        (fun pindexBlock nBTCHeight => skipBlocks nBTCHeight pindexBlock)
        tip) =
      Descent.descend names (recentHeights nCurBTCHeight) tip := by
  simp only [skipBlocks_eq]
  rfl

theorem recentHeights_descending
    (later : BTC_START_HIGHT < nCurBTCHeight.toInt) :
    (recentHeights nCurBTCHeight).Pairwise (· > ·) := by
  have value :
      ∀ offset : Nat, offset < 5 →
        (nCurBTCHeight - Int32.ofNat offset).toInt =
          nCurBTCHeight.toInt - offset := by
    intro offset small
    have upper := nCurBTCHeight.toInt_lt
    rw [BTC_START_HIGHT] at later
    rw [Int32.toInt_sub, Int32.toInt_ofNat_of_lt (by omega)]
    apply Int.bmod_eq_of_le <;> omega
  apply List.Pairwise.filter
  rw [List.pairwise_map]
  refine List.pairwise_lt_range.imp_of_mem ?_
  intro first second firstMember secondMember before
  rw [List.mem_range] at firstMember secondMember
  rw [gt_iff_lt, Int32.lt_iff_toInt_lt, value first firstMember,
    value second secondMember]
  omega

/--
Recent heights can be given to the blocks inside, each of which names its
own, so that they do not decrease towards the tip.
-/
def Spans (nCurBTCHeight : Int32) (tip : CBlockIndex)
    (inside : CBlockIndex → Prop) : Prop :=
  Descent.Labelled names (recentHeights nCurBTCHeight) tip inside

section Walk

variable (later : BTC_START_HIGHT < nCurBTCHeight.toInt)
  (walked :
    Descent.descend names (recentHeights nCurBTCHeight) tip = some start)

include later walked

theorem not_spans_all : ¬ Spans nCurBTCHeight tip fun _ => True := by
  intro spans
  exact spans.not_inside (fun _ _ _ _ => trivial)
    (recentHeights_descending later) walked trivial

/-- The walk stops at the last block above which heights can be given. -/
theorem spans_above_iff (below : pindexBlock ≤ tip) :
    Spans nCurBTCHeight tip (pindexBlock < ·) ↔ start ≤ pindexBlock := by
  have upward :
      ∀ earlier later, pindexBlock < earlier → earlier ≤ later →
        pindexBlock < later :=
    fun _ _ above order => above.trans_le order
  have onPath := Descent.descend_le walked
  rw [Spans, Descent.labelled_iff upward (recentHeights_descending later)]
  constructor
  · intro outside
    rcases Lineage.le_total_of_le onPath below with lower | higher
    · exact lower
    · by_contra above
      apply outside start walked
      exact lt_of_le_of_ne higher fun same => above same.symm.le
  · intro lower stop isStop
    rw [walked] at isStop
    cases isStop
    exact not_lt_of_ge lower

end Walk

theorem spans_all_of_walk
    (later : BTC_START_HIGHT < nCurBTCHeight.toInt)
    (walked : Descent.descend names (recentHeights nCurBTCHeight) tip = none) :
    Spans nCurBTCHeight tip fun _ => True := by
  apply Descent.labelled_of_descend (fun _ _ _ _ => trivial)
    (recentHeights_descending later)
  intro stop isStop
  rw [walked] at isStop
  cases isStop

/-! ## The scan -/

theorem firstInvalid?_eq_none
    {nHeight : Nat} (found : firstInvalid? valid nHeight tip = none) :
    ∀ pindex ≤ tip, nHeight ≤ pindex.height → valid pindex = true := by
  induction tip with
  | root block =>
      intro pindex below high
      rw [Lineage.le_root_iff.mp below] at high ⊢
      rw [firstInvalid?] at found
      split_ifs at found with invalid
      simpa [Nat.le_zero.mp high] using invalid
  | child pprev block inductionHypothesis =>
      intro pindex below high
      rw [firstInvalid?] at found
      split at found
      · cases found
      next earlier =>
        split_ifs at found with invalid
        rcases Lineage.le_child_iff.mp below with rfl | lower
        · rw [not_and, Bool.not_eq_false] at invalid
          exact invalid high
        · exact inductionHypothesis earlier pindex lower high

/-- The scan finds the lowest block with a wrong hash. -/
theorem firstInvalid?_lowest
    {nHeight : Nat}
    (found : firstInvalid? valid nHeight tip = some pindexBlock) :
    nHeight ≤ pindexBlock.height ∧
      ∀ pindex < pindexBlock, nHeight ≤ pindex.height →
        valid pindex = true := by
  induction tip with
  | root block =>
      rw [firstInvalid?] at found
      split_ifs at found with invalid
      cases found
      refine ⟨invalid.1.le, ?_⟩
      intro pindex below
      exact absurd (Lineage.le_root_iff.mp below.le) below.ne
  | child pprev block inductionHypothesis =>
      rw [firstInvalid?] at found
      split at found
      next earlier isEarlier =>
        cases found
        exact inductionHypothesis isEarlier
      next nothing =>
        split_ifs at found with invalid
        cases found
        refine ⟨invalid.1, ?_⟩
        intro pindex below high
        exact firstInvalid?_eq_none nothing pindex
          (Lineage.lt_child_iff.mp below) high

/-! ## The sweep -/

/-- Some candidate is no descendant of the block, or there is none at all. -/
def Survives (candidates : List CBlockIndex) (pindexBlock : CBlockIndex) :
    Prop :=
  candidates = [] ∨ ∃ other ∈ candidates, ¬ pindexBlock < other

theorem Survives.sweepPath
    {current : CBlockIndex} {sweep : Sweep}
    (survives : Survives sweep.candidates pindexBlock)
    (member : current ∈ sweep.candidates) :
    ∃ other ∈ (sweepPath pindexBlock current sweep).candidates,
      ¬ pindexBlock < other := by
  rcases survives with none | ⟨other, isOther, apart⟩
  · rw [none] at member
    cases member
  · exact ⟨other, mem_sweepPath.mpr ⟨isOther, fun path => apart path.1⟩, apart⟩

/-- One pass of the sweep, when it does not run past the last candidate. -/
theorem sweepPass_of_survives
    {sweep : Sweep} (survives : Survives sweep.candidates pindexBlock)
    {size : Nat} (bounded : sweep.candidates.length ≤ size) :
    ∃ next done, sweepPass less pindexBlock sweep = some (next, done) ∧
      (done = false →
        (Survives next.candidates pindexBlock ∧
            next.candidates.length ≤ size) ∧
          Descending.stepsLeft size next.candidates next.it <
            Descending.stepsLeft size sweep.candidates sweep.it) := by
  rw [sweepPass]
  cases found : (descending less sweep.candidates)[sweep.it]? with
  | none => exact ⟨sweep, true, rfl, by simp⟩
  | some current =>
      have member : current ∈ sweep.candidates := Descending.current_mem found
      by_cases above : pindexBlock < current
      · have shorter := length_sweepPath_lt member above
        have alive := survives.sweepPath member
        rcases alive with ⟨other, isOther, apart⟩
        obtain ⟨here, isHere⟩ :
            ∃ here,
              (descending less
                  (sweepPath pindexBlock current sweep).candidates)[0]? =
                some here := by
          have inside :
              other ∈
                descending less
                  (sweepPath pindexBlock current sweep).candidates :=
            Descending.mem_order.mpr isOther
          exact ⟨_, List.getElem?_eq_getElem (List.length_pos_of_mem inside)⟩
        simp only [above, decide_true, if_true]
        rw [show (sweepPath pindexBlock current sweep).it = 0 from rfl]
        simp only [isHere]
        split_ifs
        · exact ⟨_, true, rfl, by simp⟩
        · refine ⟨_, false, rfl, fun _ => ⟨⟨Or.inr ⟨other, isOther, apart⟩, ?_⟩,
            Descending.stepsLeft_erase shorter bounded⟩⟩
          exact shorter.le.trans bounded
      · simp only [above, decide_false, Bool.false_eq_true, if_false, found]
        split_ifs
        · exact ⟨_, true, rfl, by simp⟩
        · exact ⟨_, false, rfl, fun _ => ⟨⟨survives, bounded⟩,
            Descending.stepsLeft_succ found⟩⟩

/-- There are candidates, and all of them are descendants of the block. -/
structure Doomed (pindexBlock : CBlockIndex) (sweep : Sweep) : Prop where
  atStart : sweep.it = 0
  nonempty : sweep.candidates ≠ []
  above : ∀ other ∈ sweep.candidates, pindexBlock < other

/-- A sweep of descendants goes on until it runs past the last one. -/
theorem Doomed.sweepPass
    {sweep next : Sweep} {done : Bool} (doomed : Doomed pindexBlock sweep)
    (pass : sweepPass less pindexBlock sweep = some (next, done)) :
    Doomed pindexBlock next ∧ done = false := by
  rw [BlockIndex.sweepPass, doomed.atStart] at pass
  cases found : (descending less sweep.candidates)[0]? with
  | none =>
      have short : sweep.candidates.length ≤ 0 := by
        rw [← @Descending.length_order _ less sweep.candidates]
        exact List.getElem?_eq_none_iff.mp found
      exact absurd (List.length_eq_zero_iff.mp (Nat.le_zero.mp short))
        doomed.nonempty
  | some current =>
      have member : current ∈ sweep.candidates := Descending.current_mem found
      simp only [found, doomed.above current member, decide_true, if_true]
        at pass
      split at pass
      · cases pass
      next here isHere =>
        have inside :
            here ∈ (sweepPath pindexBlock current sweep).candidates :=
          Descending.current_mem isHere
        have height := Lineage.height_lt_of_lt
          (doomed.above here (mem_sweepPath.mp inside).1)
        rw [if_neg (by omega)] at pass
        cases pass
        exact ⟨⟨rfl, List.ne_nil_of_mem inside, fun other isOther =>
          doomed.above other (mem_sweepPath.mp isOther).1⟩, rfl⟩

/-- The sweep ends unless it erases all candidates. -/
theorem sweep_ends_iff (candidates : List CBlockIndex) :
    (∃ final,
        Loop.run (sweepPass less pindexBlock)
          ((candidates.length + 1) * (candidates.length + 1) + 1)
          ⟨candidates, 0⟩ = some final) ↔
      Survives candidates pindexBlock := by
  constructor
  · rintro ⟨final, ended⟩
    by_contra dies
    rw [Survives, not_or] at dies
    rcases dies with ⟨nonempty, all⟩
    push Not at all
    refine @Loop.Ends.invariant _ _ _ _ (fun _ => False)
      (Loop.ends_of_run ended) (Doomed pindexBlock) ⟨rfl, nonempty, all⟩ ?_ ?_
    · exact fun sweep next doomed pass => (doomed.sweepPass pass).1
    · intro sweep next doomed pass
      cases (doomed.sweepPass pass).2
  · intro survives
    exact Loop.run_of_measure
      (fun sweep => Survives sweep.candidates pindexBlock ∧
        sweep.candidates.length ≤ candidates.length)
      (fun sweep =>
        Descending.stepsLeft candidates.length sweep.candidates sweep.it)
      (fun sweep kept => sweepPass_of_survives kept.1 kept.2)
      ⟨survives, le_rfl⟩ Descending.stepsLeft_zero_lt

/-! ## What a call restores -/

/-- The block names one of the last five Bitcoin heights. -/
def NamesRecent (nCurBTCHeight : Int32) (pindex : CBlockIndex) : Prop :=
  ∃ nBTCHeight : Int32, nCurBTCHeight.toInt - 5 < nBTCHeight.toInt ∧
    nBTCHeight ≤ nCurBTCHeight ∧ names pindex nBTCHeight = true

/--
A call of `CheckLastBlockState` that returns has cut the active chain and
left no recent block with a wrong hash on it, and none of its loops runs on
or leads to a null pointer or past the end of the candidates.
-/
structure Restores
    (machine : Machine) (bitcoin : BitcoinChain) (nCurBTCHeight : Int32)
    (state : TreeState) (tip : CBlockIndex) : Prop where
  clean :
    ∀ next,
      checkLastBlockState machine bitcoin nCurBTCHeight state = .ok next →
        ∃ newTip, next.chain.chainActive = some newTip ∧ newTip ≤ tip ∧
          ∀ pindex ≤ newTip, NamesRecent nCurBTCHeight pindex →
            checkBTCHashValid bitcoin pindex = true
  inside :
    checkLastBlockState machine bitcoin nCurBTCHeight state ≠
      .error (.fault .outOfRange)
  ends :
    checkLastBlockState machine bitcoin nCurBTCHeight state ≠
      .error (.fault .unfinished)

/-- The lowest block with a wrong hash above which heights can be given. -/
structure Lowest
    (bitcoin : BitcoinChain) (nCurBTCHeight : Int32)
    (tip pindex : CBlockIndex) : Prop where
  below : pindex ≤ tip
  child : pindex.height ≠ 0
  wrong : checkBTCHashValid bitcoin pindex = false
  above : Spans nCurBTCHeight tip (pindex < ·)
  first :
    ∀ earlier < pindex, checkBTCHashValid bitcoin earlier = false →
      ¬ Spans nCurBTCHeight tip (earlier < ·)

/--
Heights cannot be given to the whole active chain, they can be given to the
blocks above every recent block with a wrong hash, and the candidates are not
all descendants of the block in front of which the chain is cut.
-/
structure Fits
    (bitcoin : BitcoinChain) (nCurBTCHeight : Int32)
    (candidates : List CBlockIndex) (tip : CBlockIndex) : Prop where
  stops : ¬ Spans nCurBTCHeight tip fun _ => True
  reaches :
    ∀ pindex ≤ tip, NamesRecent nCurBTCHeight pindex →
      checkBTCHashValid bitcoin pindex = false →
        Spans nCurBTCHeight tip (pindex < ·)
  survives :
    ∀ pindex, Lowest bitcoin nCurBTCHeight tip pindex →
      Survives candidates pindex

section Call

variable (isActive : state.chain.chainActive = some tip)
  (later : BTC_START_HIGHT < nCurBTCHeight.toInt)

include isActive later

theorem checkLastBlockState_eq :
    checkLastBlockState machine bitcoin nCurBTCHeight state =
      match Descent.descend names (recentHeights nCurBTCHeight) tip with
      | none => .error (.fault .outOfRange)
      | some start =>
          match
            firstInvalid? (checkBTCHashValid bitcoin) start.height tip with
          | none => .ok state
          | some pindexBlock => cutChain machine state tip pindexBlock := by
  rw [checkLastBlockState, if_neg (by omega)]
  simp only [isActive, walk_eq]
  rfl

/-- A call whose walk ends and whose scan finds nothing. -/
theorem restores_iff_of_clean
    (walked :
      Descent.descend names (recentHeights nCurBTCHeight) tip = some start)
    (nothing :
      firstInvalid? (checkBTCHashValid bitcoin) start.height tip = none) :
    Restores machine bitcoin nCurBTCHeight state tip ↔
      Fits bitcoin nCurBTCHeight state.chain.setBlockIndexValid tip := by
  have result :
      checkLastBlockState machine bitcoin nCurBTCHeight state = .ok state := by
    rw [checkLastBlockState_eq isActive later, walked]
    simp only [nothing]
  have fine :
      ∀ pindex ≤ tip, Spans nCurBTCHeight tip (pindex < ·) →
        checkBTCHashValid bitcoin pindex = true := by
    intro pindex below spans
    exact firstInvalid?_eq_none nothing pindex below
      (Lineage.height_le_of_le ((spans_above_iff later walked below).mp spans))
  constructor
  · intro restores
    refine ⟨not_spans_all later walked, ?_, ?_⟩
    · intro pindex below recent wrong
      rcases restores.clean state result with ⟨newTip, isTip, -, clean⟩
      rw [isActive] at isTip
      cases isTip
      rw [clean pindex below recent] at wrong
      cases wrong
    · intro pindex lowest
      have wrong := lowest.wrong
      rw [fine pindex lowest.below lowest.above] at wrong
      cases wrong
  · intro fits
    refine ⟨?_, by rw [result]; simp, by rw [result]; simp⟩
    intro next isNext
    rw [result] at isNext
    cases isNext
    refine ⟨tip, isActive, le_rfl, ?_⟩
    intro pindex below recent
    by_contra wrong
    rw [Bool.not_eq_true] at wrong
    have valid := fine pindex below (fits.reaches pindex below recent wrong)
    rw [wrong] at valid
    cases valid

/-- The walk has stopped and the scan has found a block above it. -/
structure CutAt
    (bitcoin : BitcoinChain) (nCurBTCHeight : Int32)
    (tip start pindexBlock : CBlockIndex) : Prop where
  below : pindexBlock ≤ tip
  wrong : checkBTCHashValid bitcoin pindexBlock = false
  start_le : start ≤ pindexBlock
  fine :
    ∀ pindex < pindexBlock, start ≤ pindex →
      checkBTCHashValid bitcoin pindex = true
  reached :
    ∀ pindex ≤ tip,
      (Spans nCurBTCHeight tip (pindex < ·) ↔ start ≤ pindex)

omit isActive in
theorem cutAt_of_found
    (walked :
      Descent.descend names (recentHeights nCurBTCHeight) tip = some start)
    (found :
      firstInvalid? (checkBTCHashValid bitcoin) start.height tip =
        some pindexBlock) :
    CutAt bitcoin nCurBTCHeight tip start pindexBlock := by
  rcases firstInvalid?_spec found with ⟨below, wrong⟩
  rcases firstInvalid?_lowest found with ⟨high, lowest⟩
  refine ⟨below, wrong, ?_, ?_, fun pindex => spans_above_iff later walked⟩
  · rcases Lineage.le_total_of_le (Descent.descend_le walked) below with
      lower | higher
    · exact lower
    · rw [Lineage.eq_of_le_of_height_le higher high]
  · intro pindex under above
    exact lowest pindex under (Lineage.height_le_of_le above)

end Call

namespace CutAt

variable (cut : CutAt bitcoin nCurBTCHeight tip start pindexBlock)

include cut

theorem eq_of_lowest
    {pindex : CBlockIndex}
    (lowest : Lowest bitcoin nCurBTCHeight tip pindex) :
    pindex = pindexBlock := by
  have above := (cut.reached pindex lowest.below).mp lowest.above
  rcases Lineage.le_total_of_le lowest.below cut.below with lower | higher
  · by_contra other
    have valid := cut.fine pindex (lt_of_le_of_ne lower other) above
    rw [lowest.wrong] at valid
    cases valid
  · by_contra other
    exact lowest.first pindexBlock (lt_of_le_of_ne higher (Ne.symm other))
      cut.wrong ((cut.reached pindexBlock cut.below).mpr cut.start_le)

theorem lowest (child : pindexBlock.height ≠ 0) :
    Lowest bitcoin nCurBTCHeight tip pindexBlock := by
  refine ⟨cut.below, child, cut.wrong,
    (cut.reached pindexBlock cut.below).mpr cut.start_le, ?_⟩
  intro earlier under invalid spans
  have onTip := under.le.trans cut.below
  have valid := cut.fine earlier under ((cut.reached earlier onTip).mp spans)
  rw [invalid] at valid
  cases valid

/-- The blocks that stay are clean when the walk has got to every bad one. -/
theorem clean_iff (parent : pindexBlock.pprev? = some pprev) :
    (∀ pindex ≤ pprev, NamesRecent nCurBTCHeight pindex →
        checkBTCHashValid bitcoin pindex = true) ↔
      ∀ pindex ≤ tip, NamesRecent nCurBTCHeight pindex →
        checkBTCHashValid bitcoin pindex = false →
          Spans nCurBTCHeight tip (pindex < ·) := by
  rcases Lineage.eq_child_of_pprev? parent with ⟨block, rfl⟩
  constructor
  · intro clean pindex under recent invalid
    rw [cut.reached pindex under]
    rcases Lineage.le_total_of_le (cut.start_le.trans cut.below) under with
      lower | higher
    · exact lower
    · rcases Lineage.le_child_iff.mp (higher.trans cut.start_le) with
        rfl | low
      · exact cut.start_le
      · rw [clean pindex low recent] at invalid
        cases invalid
  · intro reaches pindex under recent
    by_contra invalid
    rw [Bool.not_eq_true] at invalid
    have onTip := (under.trans (Lineage.le_child pprev block)).trans cut.below
    have valid :=
      cut.fine pindex (Lineage.lt_child_iff.mpr under)
        ((cut.reached pindex onTip).mp (reaches pindex onTip recent invalid))
    rw [invalid] at valid
    cases valid

/-- The first block of the chain has a wrong hash. -/
theorem fits_of_root
    (stops : ¬ Spans nCurBTCHeight tip fun _ => True)
    (isRoot : pindexBlock.height = 0) (candidates : List CBlockIndex) :
    Fits bitcoin nCurBTCHeight candidates tip := by
  refine ⟨stops, ?_, ?_⟩
  · intro pindex under _ _
    rw [cut.reached pindex under]
    have low := Lineage.height_le_of_le cut.start_le
    rcases Lineage.le_total_of_le (cut.start_le.trans cut.below) under with
      lower | higher
    · exact lower
    · rw [Lineage.eq_of_le_of_height_le higher (by omega)]
  · intro pindex lowest
    rw [cut.eq_of_lowest lowest] at lowest
    exact absurd isRoot lowest.child

/-- The active chain is cut in front of a block that has a parent. -/
theorem fits_iff
    (stops : ¬ Spans nCurBTCHeight tip fun _ => True)
    (parent : pindexBlock.pprev? = some pprev)
    (candidates : List CBlockIndex) :
    Fits bitcoin nCurBTCHeight candidates tip ↔
      (∀ pindex ≤ pprev, NamesRecent nCurBTCHeight pindex →
        checkBTCHashValid bitcoin pindex = true) ∧
        Survives candidates pindexBlock := by
  have child : pindexBlock.height ≠ 0 := by
    rcases Lineage.eq_child_of_pprev? parent with ⟨block, rfl⟩
    simp
  rw [cut.clean_iff parent]
  constructor
  · intro fits
    exact ⟨fits.reaches, fits.survives pindexBlock (cut.lowest child)⟩
  · rintro ⟨reaches, survives⟩
    refine ⟨stops, reaches, ?_⟩
    intro pindex lowest
    rw [cut.eq_of_lowest lowest]
    exact survives

end CutAt

/-- The chain is cut unless the sweep runs past the last candidate. -/
theorem cutChain_cases
    (parent : pindexBlock.pprev? = some pprev) (below : pindexBlock ≤ tip) :
    (¬ Survives state.chain.setBlockIndexValid pindexBlock ∧
        cutChain machine state tip pindexBlock =
          .error (.fault .outOfRange)) ∨
      Survives state.chain.setBlockIndexValid pindexBlock ∧
        ∃ next, cutChain machine state tip pindexBlock = .ok next ∧
          next.chain.chainActive = some pprev := by
  have ends :=
    @sweep_ends_iff pindexBlock
      (blockIndexWorkComparator (state.fields machine))
      state.chain.setBlockIndexValid
  have pprevBelow : pprev ≤ tip := by
    rcases Lineage.eq_child_of_pprev? parent with ⟨block, rfl⟩
    exact (Lineage.le_child pprev block).trans below
  have active : disconnectTips pprev tip = some pprev := by
    rcases disconnectTips_spec pprevBelow le_rfl with
      ⟨fork, disconnected, -, lower, greatest⟩
    rw [disconnected, le_antisymm lower (greatest pprev pprevBelow le_rfl)]
  rw [cutChain, ← ends]
  simp only [parent]
  cases swept :
      Loop.run
        (sweepPass (blockIndexWorkComparator (state.fields machine))
          pindexBlock)
        ((state.chain.setBlockIndexValid.length + 1) *
          (state.chain.setBlockIndexValid.length + 1) + 1)
        ⟨state.chain.setBlockIndexValid, 0⟩ with
  | none => exact Or.inl ⟨by simp, rfl⟩
  | some sweep => exact Or.inr ⟨⟨sweep, rfl⟩, _, rfl, active⟩

/-- A call that cuts the active chain in front of a block. -/
theorem restores_iff_of_cut
    (isActive : state.chain.chainActive = some tip)
    (later : BTC_START_HIGHT < nCurBTCHeight.toInt)
    (walked :
      Descent.descend names (recentHeights nCurBTCHeight) tip = some start)
    (found :
      firstInvalid? (checkBTCHashValid bitcoin) start.height tip =
        some pindexBlock) :
    Restores machine bitcoin nCurBTCHeight state tip ↔
      Fits bitcoin nCurBTCHeight state.chain.setBlockIndexValid tip := by
  have result :
      checkLastBlockState machine bitcoin nCurBTCHeight state =
        cutChain machine state tip pindexBlock := by
    rw [checkLastBlockState_eq isActive later, walked]
    simp only [found]
  have cut := cutAt_of_found later walked found
  have stops := not_spans_all later walked
  cases parent : pindexBlock.pprev? with
  | none =>
      have isRoot : pindexBlock.height = 0 := by
        cases pindexBlock with
        | root block => rfl
        | child pprev block => cases parent
      have asserted :
          cutChain machine state tip pindexBlock =
            .error (.fault .assertion) := by
        rw [cutChain]
        simp only [parent]
        rfl
      rw [asserted] at result
      constructor
      · exact fun _ => cut.fits_of_root stops isRoot _
      · exact fun _ =>
          ⟨by rw [result]; simp, by rw [result]; simp, by rw [result]; simp⟩
  | some pprev =>
      rw [cut.fits_iff stops parent]
      rcases @cutChain_cases machine state tip pindexBlock pprev parent
          cut.below with
        ⟨dies, stuck⟩ | ⟨survives, next, cutOff, active⟩
      · constructor
        · exact fun restores =>
            absurd (result.trans stuck) restores.inside
        · exact fun fits => absurd fits.2 dies
      · rw [cutOff] at result
        have pprevBelow : pprev ≤ tip := by
          rcases Lineage.eq_child_of_pprev? parent with ⟨block, rfl⟩
          exact (Lineage.le_child pprev block).trans cut.below
        constructor
        · intro restores
          rcases restores.clean next result with ⟨newTip, isTip, -, clean⟩
          rw [active] at isTip
          cases isTip
          exact ⟨clean, survives⟩
        · intro fits
          refine ⟨?_, by rw [result]; simp, by rw [result]; simp⟩
          intro other isNext
          rw [result] at isNext
          cases isNext
          exact ⟨pprev, active, pprevBelow, fits.1⟩

/-- The exact condition for one call, whatever state it is in. -/
theorem restores_iff
    (isActive : state.chain.chainActive = some tip)
    (later : BTC_START_HIGHT < nCurBTCHeight.toInt) :
    Restores machine bitcoin nCurBTCHeight state tip ↔
      Fits bitcoin nCurBTCHeight state.chain.setBlockIndexValid tip := by
  cases walked :
      Descent.descend names (recentHeights nCurBTCHeight) tip with
  | none =>
      have result :
          checkLastBlockState machine bitcoin nCurBTCHeight state =
            .error (.fault .outOfRange) := by
        rw [checkLastBlockState_eq isActive later, walked]
      constructor
      · exact fun restores => absurd result restores.inside
      · exact fun fits => absurd (spans_all_of_walk later walked) fits.stops
  | some start =>
      cases found :
          firstInvalid? (checkBTCHashValid bitcoin) start.height tip with
      | none => exact restores_iff_of_clean isActive later walked found
      | some pindexBlock =>
          exact restores_iff_of_cut isActive later walked found

/-! ## Every state of a run -/

/--
In every state of a run `CheckLastBlockState` restores the consistency with
the Bitcoin chain just when its walk gets to all recent blocks with a wrong
hash without leaving the chain, and candidates survive the sweep.
-/
theorem checkLastBlockState_restores_iff
    (machine : Machine) (state : TreeState) (bitcoin : BitcoinChain)
    (nCurBTCHeight : Int32) (run : Run machine state)
    (later : BTC_START_HIGHT < nCurBTCHeight.toInt) :
    ∃ tip, state.chain.chainActive = some tip ∧
      (Restores machine bitcoin nCurBTCHeight state tip ↔
        Fits bitcoin nCurBTCHeight state.chain.setBlockIndexValid tip) := by
  rcases run.grown with ⟨genesis, grown⟩
  rcases grown.within.active with ⟨tip, isActive, -⟩
  exact ⟨tip, isActive, restores_iff isActive later⟩

theorem checkLastBlockState_restores_iff_genesis :
    ∃ tip, (genesisState genesisBlock).chain.chainActive = some tip ∧
      (Restores (machineOf nonceHash) startChain 308448
          (genesisState genesisBlock) tip ↔
        Fits startChain 308448
          (genesisState genesisBlock).chain.setBlockIndexValid tip) :=
  checkLastBlockState_restores_iff (machineOf nonceHash)
    (genesisState genesisBlock) startChain 308448
    (.genesis (machineOf nonceHash) genesisBlock) (by decide)

/-! ### A block that follows a stale one -/

/-- The Bitcoin chain of some hashes that differ. -/
def bitcoinOf
    (tip : Lineage Uint256)
    (starts : tip.at? 0 = some (.root hashBitcoinStartBlock))
    (distinct : tip.items.Nodup) (nonzero : 0 ∉ tip.items) :
    BitcoinChain where
  tip := tip
  starts := starts
  distinct := fun _ _ _ _ => Lineage.height_inj_of_nodup distinct
  nonzero := by
    intro height node found isZero
    apply nonzero
    rw [← isZero]
    exact List.mem_of_getElem? (Lineage.getElem?_items_of_at? found)

/-- The Bitcoin chain while the blocks come in. -/
def oldBitcoin : BitcoinChain :=
  bitcoinOf (.child (.child (.root hashBitcoinStartBlock) 1) 2) rfl
    (by decide) (by decide)

/-- The Bitcoin chain that has replaced it. -/
def newBitcoin : BitcoinChain :=
  bitcoinOf
    (.child (.child (.child (.root hashBitcoinStartBlock) 3) 4) 5) rfl
    (by decide) (by decide)

/-- A block that names one Bitcoin block. -/
def namingBlock
    (prev nonce : Nat) (nBTCHeight : Int32) (hash : Uint256) : CBlock :=
  { plainBlock prev nonce with
    lottoHeader :=
      { genesisLottoHeader with
        mBitcoinHash := OrderedMap.empty.insert nBTCHeight hash } }

def staleIndex : CBlockIndex :=
  .child genesisIndex (namingBlock 0 1 308448 1)

/-- The block that follows the stale one. -/
def followingIndex : CBlockIndex :=
  .child staleIndex (namingBlock 1 2 308449 2)

def staleHistory : List (CBlockIndex × CBlockIndex) :=
  [(followingIndex, followingIndex), (staleIndex, staleIndex)]

theorem staleHistory_valid :
    History (machineOf nonceHash) oldBitcoin staleHistory := by
  decide

/--
The Bitcoin chain has been replaced from its second block on, and a block
arrives that names the new second block.  The tip names only the third one,
so that the walk stops there, and the stale block below it stays.
-/
theorem staleBlock_stays :
    ∃ (state : TreeState) (bitcoin : BitcoinChain) (tip : CBlockIndex),
      Run (machineOf nonceHash) state ∧
      state.chain.chainActive = some tip ∧
      BTC_START_HIGHT < (308448 : Int32).toInt ∧
      ¬ Restores (machineOf nonceHash) bitcoin 308448 state tip := by
  refine ⟨historyState staleHistory, newBitcoin,
    followingIndex, run_of_history staleHistory_valid, rfl, by decide, ?_⟩
  intro restores
  have fits := (restores_iff rfl (by decide)).mp restores
  have recent : NamesRecent 308448 staleIndex :=
    ⟨308448, by decide, le_rfl, by decide⟩
  rcases fits.reaches staleIndex (by decide) recent (by decide)
    with ⟨labelOf, labels, -⟩
  rcases labels followingIndex le_rfl (by decide) with ⟨member, named⟩
  have only : recentHeights 308448 = [308448] := by decide
  have hidden : names followingIndex 308448 = false := by decide
  rw [only, List.mem_singleton] at member
  rw [member, hidden] at named
  cases named

end DSValue.Chain.BitcoinRollback

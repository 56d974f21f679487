import DSValue.Consensus.Compact

/-!
# The target of the next block

`DarkGravityWave3` averages the targets of the last blocks while it walks back
from the tip, scales the average by the time these blocks took, and writes the
target in compact form.
-/

namespace DSValue.Consensus.DarkGravity

open DSValue.Lib
open DSValue.Lib.Mantissa
open DSValue.Core.Header
open DSValue.Core.Transaction
open DSValue.Script.Scan
open DSValue.Consensus.CheckLottoResult
open DSValue.Consensus.CheckBlock
open DSValue.Consensus.Compact

/-! ## The walk over the last blocks -/

def nTargetSpacing : Int := 150

def PastBlocksMin : Int := 24

def PastBlocksMax : Nat := 24

/-- The local variables of the walk. -/
structure Averaging where
  CountBlocks : Int := 0
  PastDifficultyAverage : Int := 0
  PastDifficultyAveragePrev : Int := 0
  LastBlockTime : Int := 0
  nActualTimespan : Int := 0

/-- The average after another target. -/
def nextAverage (state : Averaging) (CountBlocks target : Int) :
    Except Fault Int :=
  if CountBlocks = 1 then pure target
  else
    bnDiv (state.PastDifficultyAveragePrev * CountBlocks + target)
      (CountBlocks + 1)

/-- The time between the blocks read so far. -/
def nextTimespan (state : Averaging) (nBlockTime : Int) : Int :=
  if 0 < state.LastBlockTime then
    state.nActualTimespan + (state.LastBlockTime - nBlockTime)
  else state.nActualTimespan

/-- `PastDifficultyAveragePrev = PastDifficultyAverage`. -/
def Averaging.withAverage (state : Averaging) (average : Int) : Averaging :=
  { state with
    PastDifficultyAverage := average
    PastDifficultyAveragePrev := average }

/-- A pass of the walk. -/
def readBlock (state : Averaging) (block : CBlock) :
    Except Fault Averaging := do
  let CountBlocks := state.CountBlocks + 1
  let nBlockTime : Int := block.nTime.toNat
  let timed :=
    { state with
      CountBlocks := CountBlocks
      LastBlockTime := nBlockTime
      nActualTimespan := nextTimespan state nBlockTime }
  if CountBlocks ≤ PastBlocksMin then
    let average ← nextAverage state CountBlocks (setCompact block.nBits)
    pure (timed.withAverage average)
  else pure timed

/--
The walk, which ends at the genesis block or after a number of blocks.  The
height of a block is positive when it has a predecessor.
-/
def readBlocks (nBlocks : Nat) :
    (i : Nat) → CBlockIndex → Averaging → Except Fault Averaging
  | _, .root _, state => pure state
  | i, .child pprev block, state =>
      if nBlocks < i then pure state
      else do
        let next ← readBlock state block
        readBlocks nBlocks (i + 1) pprev next

/-- The time span that scales the average. -/
def clampTimespan (nActualTimespan nTargetTimespan : Int) : Int :=
  let raised :=
    if nActualTimespan < nTargetTimespan.tdiv 3 then nTargetTimespan.tdiv 3
    else nActualTimespan
  if nTargetTimespan * 3 < raised then nTargetTimespan * 3 else raised

/-- The new target before it is written. -/
def retarget (limit : Int) (state : Averaging) : Except Fault Int := do
  let nTargetTimespan := state.CountBlocks * nTargetSpacing
  let nActualTimespan := clampTimespan state.nActualTimespan nTargetTimespan
  let bnNew ←
    bnDiv (state.PastDifficultyAverage * nActualTimespan) nTargetTimespan
  pure (if limit < bnNew then limit else bnNew)

/-- `DarkGravityWave3`. -/
def darkGravityWave3 (network : Network) :
    Option CBlockIndex → Except Fault UInt32
  | none => pure (getCompact (proofOfWorkLimit network))
  | some BlockLastSolved =>
      if BlockLastSolved.height = 0 ∨
          (BlockLastSolved.height : Int) < PastBlocksMin then
        pure (getCompact (proofOfWorkLimit network))
      else do
        let state ← readBlocks PastBlocksMax 1 BlockLastSolved {}
        let bnNew ← retarget (proofOfWorkLimit network) state
        pure (getCompact bnNew)

/-- The targets of the last blocks. -/
def pastTargets : Nat → CBlockIndex → List Int
  | 0, _ => []
  | _ + 1, .root block => [setCompact block.nBits]
  | count + 1, .child pprev block =>
      setCompact block.nBits :: pastTargets count pprev

theorem exists_of_mem_pastTargets
    {count : Nat} {tip : CBlockIndex} {target : Int}
    (member : target ∈ pastTargets count tip) :
    ∃ nHeight index, tip.at? nHeight = some index ∧
      setCompact index.item.nBits = target := by
  induction count generalizing tip with
  | zero => cases member
  | succ count inductionHypothesis =>
      cases tip with
      | root block =>
          rw [pastTargets, List.mem_singleton] at member
          exact ⟨0, .root block, rfl, member.symm⟩
      | child pprev block =>
          rw [pastTargets, List.mem_cons] at member
          rcases member with rfl | member
          · exact ⟨_, _, Lineage.at?_self _, rfl⟩
          · rcases inductionHypothesis member with
              ⟨nHeight, index, found, isTarget⟩
            have below := (Lineage.at?_height found).2
            exact ⟨nHeight, index, (Lineage.at?_child_of_le below).trans found,
              isTarget⟩

theorem mem_pastTargets_of_le
    {fewer count : Nat} {tip : CBlockIndex} {target : Int}
    (less : fewer ≤ count) (member : target ∈ pastTargets fewer tip) :
    target ∈ pastTargets count tip := by
  induction fewer generalizing count tip with
  | zero => cases member
  | succ fewer inductionHypothesis =>
      rcases Nat.exists_eq_add_of_le less with ⟨more, rfl⟩
      rw [Nat.succ_add]
      cases tip with
      | root block => exact member
      | child pprev block =>
          rw [pastTargets, List.mem_cons] at member ⊢
          exact member.imp_right (inductionHypothesis (Nat.le_add_right _ _))

/-! ## Averages -/

/-- The average stays between bounds of the targets. -/
structure Between (low high : Int) (state : Averaging) : Prop where
  counted : 0 ≤ state.CountBlocks
  average :
    0 < state.CountBlocks →
      low ≤ state.PastDifficultyAverage ∧ state.PastDifficultyAverage ≤ high
  previous :
    state.PastDifficultyAveragePrev = state.PastDifficultyAverage

/-- A weighted mean lies between its arguments. -/
theorem weightedMean_between
    {low high average target count : Int} (counted : 0 ≤ count)
    (averageLow : low ≤ average) (averageHigh : average ≤ high)
    (targetLow : low ≤ target) (targetHigh : target ≤ high) :
    low ≤ (average * count + target) / (count + 1) ∧
      (average * count + target) / (count + 1) ≤ high := by
  constructor
  · rw [Int.le_ediv_iff_mul_le (by omega), mul_add, mul_one]
    exact add_le_add (mul_le_mul_of_nonneg_right averageLow counted) targetLow
  · apply Int.ediv_le_of_le_mul (by omega)
    rw [mul_add, mul_one]
    exact add_le_add (mul_le_mul_of_nonneg_right averageHigh counted)
      targetHigh

theorem readBlock_between
    {low high : Int} {state : Averaging} {block : CBlock}
    (nonnegative : 0 ≤ low) (between : Between low high state)
    (room : state.CountBlocks < PastBlocksMin)
    (targetLow : low ≤ setCompact block.nBits)
    (targetHigh : setCompact block.nBits ≤ high) :
    ∃ next, readBlock state block = .ok next ∧ Between low high next ∧
      next.CountBlocks = state.CountBlocks + 1 := by
  have counted := between.counted
  obtain ⟨average, isAverage, averageLow, averageHigh⟩ :
      ∃ average,
        nextAverage state (state.CountBlocks + 1) (setCompact block.nBits) =
          .ok average ∧ low ≤ average ∧ average ≤ high := by
    rw [nextAverage]
    split_ifs with first
    · exact ⟨_, rfl, targetLow, targetHigh⟩
    · rcases between.average (by omega) with ⟨previousLow, previousHigh⟩
      rw [between.previous]
      have mean :=
        @weightedMean_between low high state.PastDifficultyAverage
          (setCompact block.nBits) (state.CountBlocks + 1) (by omega)
          previousLow previousHigh targetLow targetHigh
      refine ⟨_, bnDiv_of_pos ?_ (by omega), mean⟩
      exact add_nonneg (mul_nonneg (by omega) (by omega)) (by omega)
  have read :
      readBlock state block =
        .ok (Averaging.withAverage
          { state with
            CountBlocks := state.CountBlocks + 1
            LastBlockTime := block.nTime.toNat
            nActualTimespan := nextTimespan state block.nTime.toNat }
          average) := by
    rw [readBlock]
    simp only [if_pos (show state.CountBlocks + 1 ≤ PastBlocksMin by omega),
      isAverage, bind, Except.bind]
    rfl
  exact ⟨_, read,
    ⟨Int.le_add_one counted, fun _ => ⟨averageLow, averageHigh⟩, rfl⟩, rfl⟩

/-- The walk reads as many blocks as it is asked for. -/
theorem readBlocks_between
    {low high : Int} {count i nBlocks : Nat} {index : CBlockIndex}
    {state : Averaging} (nonnegative : 0 ≤ low) (few : nBlocks ≤ 24)
    (remaining : i + count = nBlocks + 1) (deep : count ≤ index.height)
    (between : Between low high state)
    (counted : state.CountBlocks + 1 = i)
    (bounds : ∀ target ∈ pastTargets count index, low ≤ target ∧ target ≤ high) :
    ∃ final, readBlocks nBlocks i index state = .ok final ∧
      Between low high final ∧ final.CountBlocks = nBlocks := by
  induction count generalizing i index state with
  | zero =>
      refine ⟨state, ?_, between, by omega⟩
      cases index with
      | root block => rfl
      | child pprev block =>
          rw [readBlocks, if_pos (by omega)]
          rfl
  | succ count inductionHypothesis =>
      cases index with
      | root block => simp at deep
      | child pprev block =>
          rw [Lineage.height_child] at deep
          rw [pastTargets, List.forall_mem_cons] at bounds
          have room : state.CountBlocks < PastBlocksMin := by
            rw [PastBlocksMin]
            omega
          rcases readBlock_between nonnegative between room bounds.1.1
              bounds.1.2 with ⟨next, read, nextBetween, nextCounted⟩
          rw [readBlocks, if_neg (by omega), read]
          exact inductionHypothesis (by omega) (by omega) nextBetween
            (by omega) bounds.2

/-! ## The new target -/

theorem clampTimespan_bounds (nActualTimespan : Int) :
    1200 ≤ clampTimespan nActualTimespan 3600 ∧
      clampTimespan nActualTimespan 3600 ≤ 10800 := by
  rw [clampTimespan]
  simp only [show (3600 : Int).tdiv 3 = 1200 by decide]
  split_ifs <;> omega

theorem retarget_bounds
    {low high limit : Int} {state : Averaging} (nonnegative : 0 ≤ low)
    (between : Between low high state) (counted : state.CountBlocks = 24)
    (highLow : high ≤ limit) :
    ∃ bnNew : Nat, retarget limit state = .ok bnNew ∧
      low / 3 ≤ bnNew ∧ (bnNew : Int) ≤ min (3 * high) limit := by
  rcases between.average (by omega) with ⟨averageLow, averageHigh⟩
  rcases clampTimespan_bounds state.nActualTimespan with
    ⟨spanLow, spanHigh⟩
  have averageNonnegative : 0 ≤ state.PastDifficultyAverage := by omega
  rcases @scaled_bounds _ _ 3 1200 averageNonnegative (by decide) (by decide)
      spanLow spanHigh with ⟨scaledLow, scaledHigh⟩
  have third : low / 3 ≤ state.PastDifficultyAverage / 3 := by omega
  have spanNonnegative : 0 ≤ clampTimespan state.nActualTimespan 3600 := by
    omega
  have product :=
    Int.mul_nonneg averageNonnegative spanNonnegative
  have divided := bnDiv_of_pos product (show (0 : Int) < 3600 by decide)
  have total : (24 : Int) * nTargetSpacing = 3600 := by decide
  rw [retarget, counted, total]
  simp only [divided, bind, Except.bind]
  split_ifs with large
  · refine ⟨limit.toNat, ?_, ?_, ?_⟩
    · rw [Int.toNat_of_nonneg (by omega)]
      rfl
    · omega
    · omega
  · refine ⟨(state.PastDifficultyAverage *
      clampTimespan state.nActualTimespan 3600 / 3600).toNat, ?_, ?_, ?_⟩
    · rw [Int.toNat_of_nonneg (by omega)]
      rfl
    · omega
    · omega

theorem between_start (low high : Int) : Between low high {} :=
  ⟨Int.le_refl 0, fun positive => absurd positive (lt_irrefl 0), rfl⟩

/-- The walk over the last blocks and the target that comes of it. -/
theorem walk_bounded
    {limit : Int} {tip : CBlockIndex} (deep : 24 ≤ tip.height)
    (positive : ∀ target ∈ pastTargets 24 tip, 0 < target ∧ target ≤ limit) :
    ∃ (state : Averaging) (bnNew : Nat),
      readBlocks PastBlocksMax 1 tip {} = .ok state ∧
      retarget limit state = .ok bnNew ∧ (bnNew : Int) ≤ limit ∧
      ∀ low high,
        (∀ target ∈ pastTargets 24 tip, low ≤ target ∧ target ≤ high) →
        (∀ count, 1 ≤ count → count ≤ 24 →
          ∃ state, readBlocks count 1 tip {} = .ok state ∧
            low ≤ state.PastDifficultyAverage ∧
            state.PastDifficultyAverage ≤ high) ∧
        low / 3 ≤ bnNew ∧ (bnNew : Int) ≤ min (3 * high) limit := by
  have walk : ∀ low high : Int, ∀ count ≤ 24,
      (∀ target ∈ pastTargets 24 tip, low ≤ target ∧ target ≤ high) →
      ∃ state, readBlocks count 1 tip {} = .ok state ∧
        Between (max low 0) (min high limit) state ∧
        state.CountBlocks = count := by
    intro low high count few bounds
    refine readBlocks_between (le_max_right low 0) few (Nat.add_comm 1 count)
      (few.trans deep) (between_start _ _) rfl ?_
    intro target member
    have inside := mem_pastTargets_of_le few member
    have bound := bounds target inside
    have known := positive target inside
    omega
  rcases walk 0 limit 24 le_rfl fun target member =>
      ⟨(positive target member).1.le, (positive target member).2⟩ with
    ⟨state, read, between, counted⟩
  rw [max_self, min_self] at between
  rcases retarget_bounds le_rfl between counted le_rfl with
    ⟨bnNew, computed, -, small⟩
  refine ⟨state, bnNew, read, computed, small.trans (min_le_right _ _), ?_⟩
  intro low high bounds
  refine ⟨?_, ?_⟩
  · intro count some few
    rcases walk low high count few bounds with
      ⟨part, partRead, partBetween, partCounted⟩
    have average := partBetween.average (by omega)
    exact ⟨part, partRead, by omega, by omega⟩
  · rcases walk low high 24 le_rfl bounds with
      ⟨same, sameRead, sameBetween, -⟩
    cases read.symm.trans sameRead
    rcases retarget_bounds (le_max_right low 0) sameBetween counted
        (min_le_right high limit) with ⟨result, sameResult, lower, upper⟩
    rw [computed, Except.ok.injEq] at sameResult
    omega

theorem proofOfWorkLimit_lt (network : Network) :
    proofOfWorkLimit network < 2 ^ 256 := by
  cases network <;> decide

/-- `DarkGravityWave3` averages the last 24 targets and bounds the result. -/
theorem darkGravityWave3_bounded
    (network : Network) (pindexLast : Option CBlockIndex)
    (targets :
      ∀ tip ∈ pindexLast, ∀ nHeight index, tip.at? nHeight = some index →
        0 < setCompact index.item.nBits ∧
          setCompact index.item.nBits ≤ proofOfWorkLimit network) :
    ∃ nBits, darkGravityWave3 network pindexLast = .ok nBits ∧
      setCompact nBits ≤ proofOfWorkLimit network ∧
      getCompact (setCompact nBits) = nBits ∧
      ∀ tip ∈ pindexLast, 24 ≤ tip.height →
        ∀ low high,
          (∀ target ∈ pastTargets 24 tip, low ≤ target ∧ target ≤ high) →
          (∀ count, 1 ≤ count → count ≤ 24 →
            ∃ state, readBlocks count 1 tip {} = .ok state ∧
              low ≤ state.PastDifficultyAverage ∧
              state.PastDifficultyAverage ≤ high) ∧
          ∃ bnNew : Nat,
            low / 3 ≤ bnNew ∧
            (bnNew : Int) ≤ min (3 * high) (proofOfWorkLimit network) ∧
            setCompact nBits ≤ bnNew ∧
            (bnNew : Int) < setCompact nBits + lastUnit bnNew := by
  cases pindexLast with
  | none =>
      rcases encoded_target (proofOfWorkLimit_lt network) le_rfl with
        ⟨-, small, again⟩
      exact ⟨_, rfl, small, again, nofun⟩
  | some tip =>
      rw [darkGravityWave3]
      by_cases deep : 24 ≤ tip.height
      · have positive : ∀ target ∈ pastTargets 24 tip,
            0 < target ∧ target ≤ proofOfWorkLimit network := by
          intro target member
          rcases exists_of_mem_pastTargets member with
            ⟨nHeight, index, found, rfl⟩
          exact targets tip rfl nHeight index found
        rcases walk_bounded deep positive with
          ⟨state, bnNew, read, computed, small, bounded⟩
        rcases encoded_target (proofOfWorkLimit_lt network)
            (by exact_mod_cast small) with
          ⟨decoded, decodedSmall, again⟩
        have kept := truncate_le bnNew
        have lost := lt_truncate_add bnNew
        rw [if_neg (by rw [PastBlocksMin]; omega), read]
        simp only [bind, Except.bind, computed]
        refine ⟨_, rfl, decodedSmall, again, ?_⟩
        rintro _ ⟨⟩ - low high bounds
        rcases bounded low high bounds with ⟨steps, lower, upper⟩
        refine ⟨steps, bnNew, lower, upper, ?_, ?_⟩
        · rw [decoded]
          exact_mod_cast kept
        · rw [decoded]
          exact_mod_cast lost
      · rcases encoded_target (proofOfWorkLimit_lt network) le_rfl with
          ⟨-, small, again⟩
        rw [if_pos (Or.inr (by rw [PastBlocksMin]; omega))]
        refine ⟨_, rfl, small, again, ?_⟩
        rintro _ ⟨⟩ enough
        exact absurd enough deep

/-! ## A chain of one target -/

/-- A block of the smallest target. -/
def hardBlock : CBlock where
  nVersion := 1
  hashPrevBlock := 0
  hashMerkleRoot := 0
  nTime := 0
  nBits := 0x03000001
  nNonce := 0
  lottoHeader := ⟨1, OrderedMap.empty, 0, 0, 0⟩
  vtx := []

/-- The chain of such blocks up to a height. -/
def hardChain : Nat → CBlockIndex
  | 0 => .root hardBlock
  | nHeight + 1 => .child (hardChain nHeight) hardBlock

theorem setCompact_hardBlock : setCompact hardBlock.nBits = 1 := by decide

theorem height_hardChain (nHeight : Nat) :
    (hardChain nHeight).height = nHeight := by
  induction nHeight with
  | zero => rfl
  | succ nHeight inductionHypothesis =>
      rw [hardChain, Lineage.height_child, inductionHypothesis]

theorem item_hardChain
    {top nHeight : Nat} {index : CBlockIndex}
    (found : (hardChain top).at? nHeight = some index) :
    index.item = hardBlock := by
  induction top with
  | zero =>
      rw [hardChain, Lineage.at?] at found
      split_ifs at found
      cases found
      rfl
  | succ top inductionHypothesis =>
      rw [hardChain, Lineage.at?] at found
      split_ifs at found
      · cases found
        rfl
      · exact inductionHypothesis found

theorem target_hardChain
    {top nHeight : Nat} {index : CBlockIndex}
    (found : (hardChain top).at? nHeight = some index) :
    setCompact index.item.nBits = 1 := by
  rw [item_hardChain found, setCompact_hardBlock]

theorem darkGravityWave3_bounded_hardChain :
    ∃ nBits, darkGravityWave3 .main (some (hardChain 24)) = .ok nBits ∧
      ∃ bnNew : Nat, (bnNew : Int) ≤ 3 ∧ setCompact nBits ≤ bnNew := by
  have bounded :=
    darkGravityWave3_bounded .main (some (hardChain 24)) (by
      rintro _ ⟨⟩ nHeight index found
      rw [target_hardChain found]
      exact ⟨by decide, by decide⟩)
  rcases bounded with ⟨nBits, computed, -, -, averaged⟩
  have all : ∀ target ∈ pastTargets 24 (hardChain 24),
      (1 : Int) ≤ target ∧ target ≤ 1 := by
    intro target member
    rcases exists_of_mem_pastTargets member with ⟨nHeight, index, found, rfl⟩
    rw [target_hardChain found]
    exact ⟨le_rfl, le_rfl⟩
  rcases (averaged _ rfl (height_hardChain 24).ge 1 1 all).2 with
    ⟨bnNew, -, upper, small, -⟩
  exact ⟨nBits, computed, bnNew, by omega, small⟩

/-- A chain of 24 blocks is not averaged yet. -/
theorem darkGravityWave3_short :
    ∃ nBits, darkGravityWave3 .main (some (hardChain 23)) = .ok nBits ∧
      (∀ target ∈ pastTargets 24 (hardChain 23), target = 1) ∧
      (pastTargets 24 (hardChain 23)).length = 24 ∧
      (3 : Int) < setCompact nBits := by
  refine ⟨_, rfl, ?_, rfl, ?_⟩
  · intro target member
    rcases exists_of_mem_pastTargets member with ⟨nHeight, index, found, rfl⟩
    exact target_hardChain found
  · have decoded :=
      (encoded_target (proofOfWorkLimit_lt .main) le_rfl).1
    have cut : excess (proofOfWorkLimit .main) = 29 :=
      excess_eq (Or.inl (by decide)) (by decide)
    rw [decoded, truncate, lastUnit, cut]
    decide

end DSValue.Consensus.DarkGravity

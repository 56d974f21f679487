import DSValue.Bitcoin.Retargeting
import DSValue.Lib.Loop

/-!
# Block locators

A locator lists block hashes from an index back to the first block, in steps
that double from the eleventh entry on.  `CChain::GetLocator` clamps the next
height at the genesis block, where the chain starts.
`CChainManager::GetTipBlockLocator` also clamps it at zero, but its chain starts
at `BTC_START_HIGHT`, and below that the chain holds null pointers.
-/

namespace DSValue.Chain.Locator

open DSValue.Lib
open DSValue.Lib.KeepFirst
open DSValue.Core.Serialize
open DSValue.Consensus.CheckLottoResult
open DSValue.Bitcoin.HeaderTree
open DSValue.Bitcoin.Retargeting

variable {α : Type} {hash : α → Uint256} {genesis : Uint256}

/-! ## Indexes and chains -/

/-- The indexes of a node by their hash, with the indexes below each of them. -/
structure IndexMap (hash : α → Uint256) (genesis : Uint256) where
  table : Table Uint256 (Lineage α)
  keyed :
    ∀ key index, table.lookup key = some index → hash index.item = key
  closed :
    ∀ key pprev item, table.lookup key = some (.child pprev item) →
      table.lookup (hash pprev.item) = some pprev
  rooted :
    ∀ key item, table.lookup key = some (.root item) → hash item = genesis

/-- `CChain`, with the map of the indexes. -/
structure CChain (hash : α → Uint256) (genesis : Uint256) extends
    IndexMap hash genesis where
  tip : Option (Lineage α)
  known :
    ∀ index, tip = some index → table.lookup (hash index.item) = some index

theorem IndexMap.lookup_of_le
    (map : IndexMap hash genesis) {key : Uint256}
    {index ancestor : Lineage α} (found : map.table.lookup key = some index)
    (below : ancestor ≤ index) :
    map.table.lookup (hash ancestor.item) = some ancestor := by
  induction index generalizing key with
  | root item =>
      rw [Lineage.le_root_iff.mp below, map.keyed key _ found]
      exact found
  | child pprev item inductionHypothesis =>
      rcases Lineage.le_child_iff.mp below with rfl | lower
      · rw [map.keyed key _ found]
        exact found
      · exact inductionHypothesis (map.closed key pprev item found) lower

/-- Two ancestors of one hash are equal. -/
theorem IndexMap.eq_of_hash_eq
    (map : IndexMap hash genesis) {key : Uint256}
    {index first second : Lineage α}
    (found : map.table.lookup key = some index) (firstBelow : first ≤ index)
    (secondBelow : second ≤ index)
    (same : hash first.item = hash second.item) : first = second := by
  have firstFound := map.lookup_of_le found firstBelow
  rw [same, map.lookup_of_le found secondBelow] at firstFound
  exact (Option.some.inj firstFound).symm

/-- `pindex->nHeight` above a first block of some height. -/
def nHeight (base : Nat) (pindex : Lineage α) : Nat := base + pindex.height

/-- `CChain::operator[]`, with null pointers below the first block. -/
def CChain.atHeight (chain : CChain hash genesis) (base height : Nat) :
    Option (Lineage α) :=
  if height < base then none
  else chain.tip.bind fun tip => tip.at? (height - base)

/-! ## Locators -/

/-- The local variables of the loop. -/
structure LocatorState (α : Type) where
  vHave : List (Lineage α)
  nStep : Nat
  pindex : Lineage α

/-- `while (pindex->nHeight > nHeight && !found) pindex = pindex->pprev`. -/
def stepBack (base : Nat) (found : Lineage α → Bool) (height : Nat) :
    Lineage α → Option (Lineage α)
  | .root item =>
      if height < nHeight base (.root item) ∧ ¬ found (.root item) then none
      else some (.root item)
  | .child pprev item =>
      if height < nHeight base (.child pprev item) ∧
          ¬ found (.child pprev item) then
        stepBack base found height pprev
      else some (.child pprev item)

/-- A pass of the loop, over when `pindex` is the first block or null. -/
def locatorPass (chain : CChain hash genesis) (base : Nat)
    (found : Lineage α → Bool) (state : LocatorState α) :
    Option (LocatorState α × Bool) :=
  let vHave := state.vHave ++ [state.pindex]
  if nHeight base state.pindex = base then
    some ({ state with vHave := vHave }, true)
  else
    let height := nHeight base state.pindex - state.nStep
    let nStep := if 10 < vHave.length then state.nStep * 2 else state.nStep
    match stepBack base found height state.pindex with
    | none => none
    | some pindex =>
        if height < nHeight base pindex then
          match chain.atHeight base height with
          | none => some (⟨vHave, nStep, pindex⟩, true)
          | some next => some (⟨vHave, nStep, next⟩, false)
        else some (⟨vHave, nStep, pindex⟩, false)

/-- The hashes that are listed, with a bound on the number of passes. -/
def locatorFrom (chain : CChain hash genesis) (base : Nat)
    (found : Lineage α → Bool) (pindex : Lineage α) :
    Option (List Uint256) :=
  (Loop.run (locatorPass chain base found) (pindex.height + 1)
    ⟨[], 1, pindex⟩).map fun final =>
      final.vHave.map fun index => hash index.item

/-- `CChainManager::IsHaveBitcoinBlock` of the hash of an index. -/
def IndexMap.isHaveBitcoinBlock (map : IndexMap hash genesis)
    (pindex : Lineage α) : Bool :=
  (map.table.lookup (hash pindex.item)).isSome

/-- `CChainManager::GetTipBlockLocator`. -/
def CChain.getTipBlockLocator (chain : CChain hash hashBitcoinStartBlock) :
    Option (List Uint256) :=
  match chain.tip with
  | none => some [hashBitcoinStartBlock]
  | some tip =>
      locatorFrom chain BTC_START_HIGHT.toNat chain.isHaveBitcoinBlock tip

section Search

variable [DecidableEq α]

/-- `CChain::Contains`. -/
def CChain.contains (chain : CChain hash genesis) (base : Nat)
    (pindex : Lineage α) : Bool :=
  chain.atHeight base (nHeight base pindex) = some pindex

/-- `CChain::GetLocator`, from the tip without an index to start from. -/
def CChain.getLocator (chain : CChain hash genesis)
    (pindex : Option (Lineage α)) : Option (List Uint256) :=
  match pindex.or chain.tip with
  | none => some []
  | some start => locatorFrom chain 0 (chain.contains 0) start

/-- `CChain::FindFork`. -/
def CChain.findFork (chain : CChain hash genesis) (vHave : List Uint256) :
    Option (Lineage α) :=
  (vHave.findSome? fun have' =>
    (chain.table.lookup have').filter (chain.contains 0)).or (chain.atHeight 0 0)

theorem contains_iff
    {chain : CChain hash genesis} {base : Nat} {pindex : Lineage α} :
    chain.contains base pindex = true ↔
      ∃ tip, chain.tip = some tip ∧ pindex ≤ tip := by
  rw [CChain.contains, decide_eq_true_eq, CChain.atHeight, nHeight,
    if_neg (by omega), Nat.add_sub_cancel_left, Option.bind_eq_some_iff]
  rfl

end Search

/-! ## Passes go down -/

variable {chain : CChain hash genesis} {base : Nat} {found : Lineage α → Bool}
  {state : LocatorState α} {pindex top : Lineage α}

theorem exists_stepBack
    {height : Nat} (safe : base ≤ height ∨ found pindex = true) :
    ∃ back, stepBack base found height pindex = some back ∧ back ≤ pindex ∧
      (nHeight base back ≤ height ∨ found back = true) := by
  induction pindex with
  | root item =>
      rw [stepBack]
      split_ifs with stuck
      · rcases stuck with ⟨high, missing⟩
        rw [nHeight, Lineage.height_root] at high
        rcases safe with low | isFound
        · omega
        · exact absurd isFound missing
      · refine ⟨_, rfl, le_rfl, ?_⟩
        rw [not_and_or, not_lt, not_not] at stuck
        exact stuck
  | child pprev item inductionHypothesis =>
      rw [stepBack]
      split_ifs with missing
      · have low : base ≤ height := safe.resolve_right missing.2
        rcases inductionHypothesis (Or.inl low) with ⟨back, isBack, below, stops⟩
        exact ⟨back, isBack, below.trans (Lineage.le_child pprev item), stops⟩
      · refine ⟨_, rfl, le_rfl, ?_⟩
        rw [not_and_or, not_lt, not_not] at missing
        exact missing

/-- The indexes listed so far and the next one are ancestors of each other. -/
structure Descends (top : Lineage α) (state : LocatorState α) : Prop where
  ordered :
    (state.vHave ++ [state.pindex]).Pairwise fun higher lower => lower < higher
  below : ∀ index ∈ state.vHave ++ [state.pindex], index ≤ top
  forward : 0 < state.nStep

theorem Descends.push
    {nStep : Nat} {next : Lineage α} (descends : Descends top state)
    (lower : next < state.pindex) (forward : 0 < nStep) :
    Descends top ⟨state.vHave ++ [state.pindex], nStep, next⟩ := by
  have isLast : state.pindex ∈ state.vHave ++ [state.pindex] := by simp
  refine ⟨?_, ?_, forward⟩
  · rw [List.pairwise_append]
    refine ⟨descends.ordered, List.pairwise_singleton _ _, ?_⟩
    intro index member other isNext
    rw [List.mem_singleton] at isNext
    rw [isNext]
    rw [List.mem_append, List.mem_singleton] at member
    rcases member with earlier | rfl
    · have above := (List.pairwise_append.mp descends.ordered).2.2 index earlier
        state.pindex List.mem_cons_self
      exact lower.trans above
    · exact lower
  · intro index member
    rw [List.mem_append, List.mem_singleton] at member
    rcases member with earlier | rfl
    · exact descends.below index earlier
    · exact lower.le.trans (descends.below _ isLast)

/-- The step behind a pass. -/
def nextStep (state : LocatorState α) : Nat :=
  if 10 < (state.vHave ++ [state.pindex]).length then state.nStep * 2
  else state.nStep

theorem nextStep_pos (forward : 0 < state.nStep) : 0 < nextStep state := by
  rw [nextStep]
  split_ifs
  · omega
  · exact forward

theorem locatorPass_first (first : state.pindex.height = 0) :
    locatorPass chain base found state =
      some ({ state with vHave := state.vHave ++ [state.pindex] }, true) := by
  rw [locatorPass]
  exact if_pos (by rw [nHeight, first, Nat.add_zero])

/-- A pass above the first block goes down or below the chain. -/
theorem locatorPass_descends
    (descends : Descends top state) (above : state.pindex.height ≠ 0)
    (safe :
      base ≤ nHeight base state.pindex - state.nStep ∨
        found state.pindex = true)
    (active : ∀ index, found index = true → index ≤ top →
      ∃ tip, chain.tip = some tip ∧ index ≤ tip) :
    ∃ next done, locatorPass chain base found state = some (next, done) ∧
      next.vHave = state.vHave ++ [state.pindex] ∧
      (done = false → Descends top next ∧
        next.pindex.height < state.pindex.height) ∧
      (done = true → nHeight base state.pindex - state.nStep < base) := by
  have isLast : state.pindex ∈ state.vHave ++ [state.pindex] := by simp
  have forward := descends.forward
  rcases exists_stepBack safe with ⟨back, isBack, below, stops⟩
  have high : nHeight base state.pindex ≠ base := by
    rw [nHeight]
    omega
  rw [locatorPass]
  simp only [if_neg high, isBack]
  by_cases jump : nHeight base state.pindex - state.nStep < nHeight base back
  · rw [if_pos jump]
    rcases active back (stops.resolve_left (not_le.mpr jump))
        (below.trans (descends.below _ isLast)) with ⟨tip, isTip, onChain⟩
    rw [CChain.atHeight, isTip, Option.bind_some]
    by_cases under : nHeight base state.pindex - state.nStep < base
    · rw [if_pos under]
      exact ⟨_, true, rfl, rfl, nofun, fun _ => under⟩
    · rw [if_neg under]
      have inside :
          nHeight base state.pindex - state.nStep - base ≤ tip.height := by
        have lower := Lineage.height_le_of_le onChain
        rw [nHeight, nHeight] at *
        omega
      rcases Lineage.at?_isSome inside with ⟨next, isNext⟩
      rw [isNext]
      have nextHeight := (Lineage.at?_height isNext).1
      have shorter : next.height < back.height := by
        rw [nextHeight]
        rw [nHeight, nHeight] at *
        omega
      have lower : next < back := by
        rcases Lineage.le_total_of_le (Lineage.le_of_at? isNext) onChain with
          nextBelow | backBelow
        · refine lt_of_le_of_ne nextBelow ?_
          rintro rfl
          exact absurd shorter (lt_irrefl _)
        · exact absurd (Lineage.height_le_of_le backBelow) (not_le.mpr shorter)
      have less := lower.trans_le below
      exact ⟨_, false, rfl, rfl,
        fun _ => ⟨descends.push less (nextStep_pos forward),
          Lineage.height_lt_of_lt less⟩, nofun⟩
  · rw [if_neg jump]
    have less : back < state.pindex := by
      refine lt_of_le_of_ne below ?_
      rintro rfl
      rw [nHeight] at *
      omega
    exact ⟨_, false, rfl, rfl,
      fun _ => ⟨descends.push less (nextStep_pos forward),
        Lineage.height_lt_of_lt less⟩, nofun⟩

/-! ## Listed indexes -/

/-- A list of indexes that descends on one path. -/
structure Ladder (top : Lineage α) (vHave : List (Lineage α)) : Prop where
  ordered : vHave.Pairwise fun higher lower => lower < higher
  below : ∀ index ∈ vHave, index ≤ top

theorem Descends.ladder (descends : Descends top state) :
    Ladder top (state.vHave ++ [state.pindex]) :=
  ⟨descends.ordered, descends.below⟩

theorem descends_start (top : Lineage α) : Descends top ⟨[], 1, top⟩ := by
  refine ⟨List.pairwise_singleton _ _, ?_, Nat.one_pos⟩
  intro index member
  rw [List.nil_append, List.mem_singleton] at member
  exact member.le

/-- The loop ends, in a descending list. -/
theorem run_ladder
    (safe : ∀ index, index ≤ top → base = 0 ∨ found index = true)
    (active : ∀ index, found index = true → index ≤ top →
      ∃ tip, chain.tip = some tip ∧ index ≤ tip) :
    ∃ final, Loop.run (locatorPass chain base found) (top.height + 1)
        ⟨[], 1, top⟩ = some final ∧
      Ladder top final.vHave ∧
      (base = 0 →
        ∃ earlier last, final.vHave = earlier ++ [last] ∧ last.height = 0) := by
  refine Loop.run_reaches (Descends top) (fun state => state.pindex.height) ?_
    (descends_start top) (Nat.lt_succ_self _)
  intro state descends
  have inside : state.pindex ≤ top := descends.below _ (by simp)
  by_cases first : state.pindex.height = 0
  · exact ⟨_, true, locatorPass_first first, nofun,
      fun _ => ⟨descends.ladder, fun _ => ⟨_, _, rfl, first⟩⟩⟩
  · have start := (safe _ inside).imp_left
      fun zero : base = 0 =>
        zero.le.trans (Nat.zero_le (nHeight base state.pindex - state.nStep))
    rcases locatorPass_descends descends first start active with
      ⟨next, done, pass, listed, again, last⟩
    refine ⟨next, done, pass, again, ?_⟩
    intro isDone
    have under := last isDone
    rw [listed]
    exact ⟨descends.ladder, fun zero => by omega⟩

/-! ## The steps of a locator of the tip -/

/-- How far below the tip the next index stands. -/
def ladderDepth (listed : Nat) : Nat :=
  if listed ≤ 9 then listed else 9 + 2 ^ (listed - 10)

theorem ladderDepth_succ (listed : Nat) :
    ladderDepth (listed + 1) = ladderDepth listed + 2 ^ (listed - 10) := by
  rw [ladderDepth, ladderDepth]
  rcases Nat.lt_trichotomy listed 9 with few | rfl | many
  · rw [if_pos (by omega), if_pos few.le, show listed - 10 = 0 by omega,
      Nat.pow_zero]
  · rfl
  · rw [if_neg (by omega), if_neg (by omega),
      show listed + 1 - 10 = listed - 10 + 1 by omega, Nat.pow_succ]
    omega

theorem ladderDepth_lt_succ (listed : Nat) :
    ladderDepth listed < ladderDepth (listed + 1) := by
  rw [ladderDepth_succ]
  exact Nat.lt_add_of_pos_right (Nat.two_pow_pos _)

theorem ladderDepth_strictMono : StrictMono ladderDepth :=
  strictMono_nat_of_lt_succ ladderDepth_lt_succ

/-- The depths at which an index is listed. -/
def IsListedDepth (depth : Nat) : Prop :=
  depth ≤ 9 ∨ ∃ doublings, depth = 9 + 2 ^ doublings

theorem isListedDepth_iff {depth : Nat} :
    IsListedDepth depth ↔ ∃ listed, ladderDepth listed = depth := by
  constructor
  · rintro (few | ⟨doublings, rfl⟩)
    · exact ⟨depth, if_pos few⟩
    · refine ⟨doublings + 10, ?_⟩
      rw [ladderDepth, if_neg (by omega), Nat.add_sub_cancel]
  · rintro ⟨listed, rfl⟩
    rw [ladderDepth]
    split_ifs with few
    · exact Or.inl few
    · exact Or.inr ⟨_, rfl⟩

/-- The state of the loop on the active chain. -/
structure Doubles (tip : Lineage α) (state : LocatorState α) : Prop where
  onChain : state.pindex ≤ tip
  depth :
    state.pindex.height + ladderDepth state.vHave.length = tip.height
  step : state.nStep = 2 ^ (state.vHave.length - 10)

theorem doubles_start (tip : Lineage α) : Doubles tip ⟨[], 1, tip⟩ :=
  ⟨le_rfl, rfl, rfl⟩

theorem nextStep_of_doubles (doubles : Doubles top state) :
    nextStep state =
      2 ^ ((state.vHave ++ [state.pindex]).length - 10) := by
  rw [nextStep, doubles.step, List.length_append, List.length_singleton]
  split_ifs with many
  · rw [← Nat.pow_succ]
    congr 1
    omega
  · rw [show state.vHave.length - 10 = state.vHave.length + 1 - 10 by omega]

theorem stepBack_found
    (isFound : found pindex = true) (height : Nat) :
    stepBack base found height pindex = some pindex := by
  cases pindex with
  | root item => exact if_neg fun missing => missing.2 isFound
  | child pprev item => exact if_neg fun missing => missing.2 isFound

/-- A pass above the first block either steps to an index or below the chain. -/
theorem locatorPass_doubles
    (positive : 0 < base) (isTip : chain.tip = some top)
    (isFound : found state.pindex = true) (doubles : Doubles top state)
    (above : state.pindex.height ≠ 0) :
    ∃ next done, locatorPass chain base found state = some (next, done) ∧
      next.vHave = state.vHave ++ [state.pindex] ∧
      (done = false → Doubles top next ∧
        next.pindex.height < state.pindex.height) ∧
      (done = true → state.pindex.height < 2 ^ (state.vHave.length - 10)) := by
  have forward : 0 < state.nStep := by
    rw [doubles.step]
    exact Nat.two_pow_pos _
  have high : nHeight base state.pindex ≠ base := by
    rw [nHeight]
    omega
  have jump :
      nHeight base state.pindex - state.nStep < nHeight base state.pindex := by
    rw [nHeight]
    omega
  rw [locatorPass]
  simp only [if_neg high, stepBack_found isFound, if_pos jump, CChain.atHeight,
    isTip, Option.bind_some]
  by_cases under : nHeight base state.pindex - state.nStep < base
  · rw [if_pos under]
    refine ⟨_, true, rfl, rfl, nofun, ?_⟩
    intro _
    rw [← doubles.step]
    rw [nHeight] at under
    omega
  · rw [if_neg under]
    have lower := Lineage.height_le_of_le doubles.onChain
    have distance : nHeight base state.pindex - state.nStep - base =
        state.pindex.height - state.nStep := by
      rw [nHeight]
      omega
    rw [distance]
    rcases Lineage.at?_isSome
        (show state.pindex.height - state.nStep ≤ top.height by omega) with
      ⟨next, isNext⟩
    have nextHeight := (Lineage.at?_height isNext).1
    have depth := doubles.depth
    rw [isNext]
    refine ⟨_, false, rfl, rfl, ?_, nofun⟩
    intro _
    rw [nHeight] at under
    refine ⟨⟨Lineage.le_of_at? isNext, ?_, nextStep_of_doubles doubles⟩, ?_⟩
    · rw [List.length_append, List.length_singleton, ladderDepth_succ,
        ← doubles.step]
      show next.height + _ = _
      omega
    · show next.height < _
      omega

/-- The last index of a locator of the tip. -/
theorem run_reaches_root_iff
    (positive : 0 < base) (isTip : chain.tip = some top)
    (isFound : ∀ index, index ≤ top → found index = true) :
    ∃ final, Loop.run (locatorPass chain base found) (top.height + 1)
        ⟨[], 1, top⟩ = some final ∧
      ∃ earlier last, final.vHave = earlier ++ [last] ∧
        (last.height = 0 ↔ IsListedDepth top.height) := by
  refine Loop.run_reaches (Doubles top) (fun state => state.pindex.height) ?_
    (doubles_start top) (Nat.lt_succ_self _)
  intro state doubles
  have depth := doubles.depth
  by_cases first : state.pindex.height = 0
  · refine ⟨_, true, locatorPass_first first, nofun, fun _ => ⟨_, _, rfl, ?_⟩⟩
    rw [first, Nat.zero_add] at depth
    exact iff_of_true first (isListedDepth_iff.mpr ⟨_, depth⟩)
  · rcases locatorPass_doubles positive isTip (isFound _ doubles.onChain)
        doubles first with ⟨next, done, pass, listed, again, last⟩
    refine ⟨next, done, pass, again, ?_⟩
    intro isDone
    have short := last isDone
    refine ⟨_, _, listed, iff_of_false first ?_⟩
    rw [isListedDepth_iff]
    rintro ⟨other, isDepth⟩
    have further := ladderDepth_succ state.vHave.length
    have afterThis : state.vHave.length < other :=
      ladderDepth_strictMono.lt_iff_lt.mp (by omega)
    have beforeNext : other < state.vHave.length + 1 :=
      ladderDepth_strictMono.lt_iff_lt.mp (by omega)
    omega

end DSValue.Chain.Locator

import DSValue.Core.Transaction
import DSValue.Lib.Marks
import DSValue.Lib.MachineInt
import Mathlib.Algebra.Order.BigOperators.Group.List

/-!
# The selection of coins

`SelectCoinsMinConf` takes a coin that matches the target, all coins below the
target and a cent when they match it together, the next larger coin, or the
best of the subsets that `ApproximateBestSubset` tries at random.  The order
of the shuffled and of the sorted coins and the random bits are choices.
-/

namespace DSValue.Wallet.CoinSelection

open DSValue.Lib
open DSValue.Lib.Marks
open DSValue.Core.Transaction

/-- `CENT`. -/
def CENT : Int64 := 1000000

/-! ## Coins -/

/-- What the selection reads of a `CWalletTx`, and its address. -/
structure CWalletTx where
  address : Nat
  vout : List CTxOut
  isFromMe : Bool
deriving DecidableEq

/-- `COutput`, an output that its transaction has. -/
structure COutput where
  tx : CWalletTx
  i : Nat
  nDepth : Int32
  inside : i < tx.vout.length
deriving DecidableEq

def COutput.nValue (output : COutput) : Int64 :=
  (output.tx.vout.get ⟨output.i, output.inside⟩).nValue

/-- `pair<const CWalletTx*, unsigned int>`. -/
abbrev CoinKey := Nat × Nat

/-- `pair<int64_t, pair<const CWalletTx*, unsigned int> >`. -/
structure Coin where
  nValue : Int64
  key : CoinKey
deriving DecidableEq

def COutput.coin (output : COutput) : Coin :=
  ⟨output.nValue, output.tx.address, output.i⟩

/-- The test of the confirmations. -/
def COutput.eligible (nConfMine nConfTheirs : Int32) (output : COutput) : Bool :=
  ¬ output.nDepth < if output.tx.isFromMe then nConfMine else nConfTheirs

/--
What is left open: the results of `random_shuffle` and of `sort` with
`CompareValueOnly`, and the bits of `insecure_rand` by the call of
`ApproximateBestSubset`, the repetition and the index.
-/
structure Choices where
  shuffle : List COutput → List COutput
  shuffle_perm : ∀ coins, (shuffle coins).Perm coins
  sort : List Coin → List Coin
  sort_perm : ∀ coins, (sort coins).Perm coins
  sort_sorted :
    ∀ coins, (sort coins).Pairwise fun first second =>
      second.nValue ≤ first.nValue
  insecure_rand : Nat → Nat → Nat → Bool

/-! ## `ApproximateBestSubset` -/

/-- The two variables for the best subset. -/
structure Best where
  vfBest : List Bool
  nBest : Int64
deriving DecidableEq

/-- The variables of the search, and the earlier values of the best subset. -/
structure Search extends Best where
  vfIncluded : List Bool
  nTotal : Int64
  fReachedTarget : Bool
  earlier : List Best

/-- The body of the inner loop for a coin that is included. -/
def includeCoin (nTargetValue : Int64) (search : Search) (i : Nat) (coin : Coin) :
    Search :=
  let nTotal := search.nTotal + coin.nValue
  let vfIncluded := search.vfIncluded.set i true
  if nTargetValue ≤ nTotal then
    let left :=
      { search with
        fReachedTarget := true
        nTotal := nTotal - coin.nValue
        vfIncluded := vfIncluded.set i false }
    if nTotal < search.nBest then
      { left with
        nBest := nTotal
        vfBest := vfIncluded
        earlier := search.toBest :: search.earlier }
    else left
  else { search with nTotal := nTotal, vfIncluded := vfIncluded }

/-- The inner loop for a coin, with the random bits of the repetition. -/
def visitCoin (vValue : List Coin) (nTargetValue : Int64)
    (insecure_rand : Nat → Bool) (nPass : Nat) (search : Search) (i : Nat) :
    Option Search :=
  match vValue[i]?, search.vfIncluded[i]? with
  | some coin, some included =>
      if (if nPass = 0 then insecure_rand i else !included) then
        some (includeCoin nTargetValue search i coin)
      else some search
  | _, _ => none

/-- A pass over the coins, unless the target was reached before. -/
def searchPass (vValue : List Coin) (nTargetValue : Int64)
    (insecure_rand : Nat → Bool) (search : Search) (nPass : Nat) :
    Option Search :=
  if search.fReachedTarget then some search
  else
    (List.range vValue.length).foldlM
      (visitCoin vValue nTargetValue insecure_rand nPass) search

/-- A repetition, unless the target is matched. -/
def searchRep (vValue : List Coin) (nTargetValue : Int64)
    (insecure_rand : Nat → Nat → Bool) (search : Search) (nRep : Nat) :
    Option Search :=
  if search.nBest = nTargetValue then some search
  else
    (List.range 2).foldlM (searchPass vValue nTargetValue (insecure_rand nRep))
      { search with
        vfIncluded := List.replicate vValue.length false
        nTotal := 0
        fReachedTarget := false }

/-- `ApproximateBestSubset`. -/
def approximateBestSubset (vValue : List Coin) (nTotalLower nTargetValue : Int64)
    (insecure_rand : Nat → Nat → Bool) (iterations : Nat) : Option Search :=
  (List.range iterations).foldlM
    (searchRep vValue nTargetValue insecure_rand)
    { vfBest := List.replicate vValue.length true
      nBest := nTotalLower
      vfIncluded := []
      nTotal := 0
      fReachedTarget := false
      earlier := [] }

/-! ## `SelectCoinsMinConf` -/

/-- The variables of the first loop. -/
structure Scan where
  coinLowestLarger : Option Coin
  vValue : List Coin
  nTotalLower : Int64

/-- The value of `coinLowestLarger`, at first the largest one. -/
def Scan.lowestLarger (scan : Scan) : Int64 :=
  match scan.coinLowestLarger with
  | some coin => coin.nValue
  | none => Int64.maxValue

/-- The body of the first loop, which leaves the function with a match. -/
def scanCoin (nTargetValue : Int64) (nConfMine nConfTheirs : Int32)
    (scan : Scan) (output : COutput) : Except Coin Scan :=
  if ¬ output.eligible nConfMine nConfTheirs then pure scan
  else
    let n := output.nValue
    if n = nTargetValue then throw output.coin
    else if n < nTargetValue + CENT then
      pure
        { scan with
          vValue := scan.vValue ++ [output.coin]
          nTotalLower := scan.nTotalLower + n }
    else if n < scan.lowestLarger then
      pure { scan with coinLowestLarger := some output.coin }
    else pure scan

/-- What the function returns, `setCoinsRet` and `nValueRet`. -/
structure Selection where
  fRet : Bool
  setCoinsRet : Finset CoinKey
  nValueRet : Int64
deriving DecidableEq

def Selection.nothing : Selection := ⟨false, ∅, 0⟩

/-- The coins are inserted and their values added. -/
def Selection.add (selection : Selection) (coin : Coin) : Selection where
  fRet := true
  setCoinsRet := insert coin.key selection.setCoinsRet
  nValueRet := selection.nValueRet + coin.nValue

def selectAll (coins : List Coin) : Selection :=
  { coins.foldl Selection.add .nothing with fRet := true }

/-- The part of the function behind the two calls of the search. -/
def chooseSubset (scan : Scan) (vValue : List Coin) (best : Best)
    (nTargetValue : Int64) : Selection :=
  match scan.coinLowestLarger with
  | some coin =>
      if (best.nBest ≠ nTargetValue ∧ best.nBest < nTargetValue + CENT) ∨
          coin.nValue ≤ best.nBest then
        selectAll [coin]
      else selectAll (marked best.vfBest vValue)
  | none => selectAll (marked best.vfBest vValue)

/-- The function behind the first loop. -/
def selectScanned (scan : Scan) (nTargetValue : Int64) (choices : Choices) :
    Option Selection :=
  if scan.nTotalLower = nTargetValue then some (selectAll scan.vValue)
  else if scan.nTotalLower < nTargetValue then
    match scan.coinLowestLarger with
    | none => some .nothing
    | some coin => some (selectAll [coin])
  else do
    let vValue := choices.sort scan.vValue
    let first ←
      approximateBestSubset vValue scan.nTotalLower nTargetValue
        (choices.insecure_rand 0) 1000
    let second ←
      if first.nBest ≠ nTargetValue ∧ nTargetValue + CENT ≤ scan.nTotalLower
      then
        approximateBestSubset vValue scan.nTotalLower (nTargetValue + CENT)
          (choices.insecure_rand 1) 1000
      else some first
    some (chooseSubset scan vValue second.toBest nTargetValue)

/-- `CWallet::SelectCoinsMinConf`. -/
def selectCoinsMinConf (nTargetValue : Int64) (nConfMine nConfTheirs : Int32)
    (vCoins : List COutput) (choices : Choices) : Option Selection :=
  match (choices.shuffle vCoins).foldlM
      (scanCoin nTargetValue nConfMine nConfTheirs) ⟨none, [], 0⟩ with
  | .error coin => some (selectAll [coin])
  | .ok scan => selectScanned scan nTargetValue choices

/-! ## Totals -/

variable {vValue coins : List Coin} {nTargetValue nTotalLower : Int64}
  {search next : Search} {coin : Coin} {i : Nat}

/-- The total of some coins, without a bound. -/
def total (coins : List Coin) : Int :=
  (coins.map fun coin => coin.nValue.toInt).sum

/-- Coins with values that are not negative. -/
def NonNegative (coins : List Coin) : Prop :=
  ∀ coin ∈ coins, 0 ≤ coin.nValue.toInt

theorem total_cons (coin : Coin) (coins : List Coin) :
    total (coin :: coins) = coin.nValue.toInt + total coins := by
  rw [total, List.map_cons, List.sum_cons, total]

theorem total_perm {others : List Coin} (same : coins.Perm others) :
    total coins = total others :=
  (same.map _).sum_eq

theorem total_nonneg (nonNegative : NonNegative coins) : 0 ≤ total coins := by
  refine List.sum_nonneg ?_
  intro value member
  rcases List.mem_map.mp member with ⟨coin, isCoin, rfl⟩
  exact nonNegative coin isCoin

theorem NonNegative.sublist
    {others : List Coin} (nonNegative : NonNegative coins)
    (smaller : others.Sublist coins) : NonNegative others :=
  fun coin member => nonNegative coin (smaller.mem member)

theorem total_le_of_sublist
    {others : List Coin} (nonNegative : NonNegative coins)
    (smaller : others.Sublist coins) : total others ≤ total coins := by
  refine (smaller.map fun coin => coin.nValue.toInt).sum_le_sum ?_
  intro value member
  rcases List.mem_map.mp member with ⟨coin, isCoin, rfl⟩
  exact nonNegative coin isCoin

/-! ## The search -/

/-- The best subset so far. -/
structure Good (vValue : List Coin) (nTargetValue nTotalLower : Int64)
    (best : Best) : Prop where
  length : best.vfBest.length = vValue.length
  sum : best.nBest.toInt = total (marked best.vfBest vValue)
  enough : nTargetValue.toInt ≤ best.nBest.toInt
  most : best.nBest.toInt ≤ nTotalLower.toInt

/-- The values of the best subset, the last one first. -/
def Search.bests (search : Search) : List Best :=
  search.toBest :: search.earlier

/-- Every value of the best subset is good, and less than the one before it. -/
structure Improving (vValue : List Coin) (nTargetValue nTotalLower : Int64)
    (bests : List Best) : Prop where
  good : ∀ best ∈ bests, Good vValue nTargetValue nTotalLower best
  decreasing :
    bests.Pairwise fun later earlier => later.nBest.toInt < earlier.nBest.toInt

/-- The included coins inside a repetition. -/
structure Including (vValue : List Coin) (nTargetValue nTotalLower : Int64)
    (search : Search) : Prop where
  improving : Improving vValue nTargetValue nTotalLower search.bests
  length : search.vfIncluded.length = vValue.length
  sum : search.nTotal.toInt = total (marked search.vfIncluded vValue)

/-- What a call of the search is given. -/
structure Searchable (vValue : List Coin) (nTargetValue nTotalLower : Int64) :
    Prop where
  nonNegative : NonNegative vValue
  sum : nTotalLower.toInt = total vValue
  enough : nTargetValue.toInt ≤ nTotalLower.toInt

theorem Including.includeCoin
    (searchable : Searchable vValue nTargetValue nTotalLower)
    (including : Including vValue nTargetValue nTotalLower search)
    (found : vValue[i]? = some coin)
    (excluded : search.vfIncluded[i]? = some false) :
    Including vValue nTargetValue nTotalLower
        (includeCoin nTargetValue search i coin) ∧
      ∀ other, other ≠ i →
        (includeCoin nTargetValue search i coin).vfIncluded[other]? =
          search.vfIncluded[other]? := by
  have more : total (marked (search.vfIncluded.set i true) vValue) =
      coin.nValue.toInt + search.nTotal.toInt := by
    rw [total_perm (marked_set_perm excluded found), total_cons, including.sum]
  have upper := total_le_of_sublist searchable.nonNegative
    (marked_sublist (search.vfIncluded.set i true) vValue)
  have lower : 0 ≤ search.nTotal.toInt := by
    rw [including.sum]
    exact total_nonneg (searchable.nonNegative.sublist (marked_sublist _ _))
  have value := searchable.nonNegative coin (List.mem_of_getElem? found)
  have fits := nTotalLower.toInt_lt
  have sum := searchable.sum
  have added : (search.nTotal + coin.nValue).toInt =
      search.nTotal.toInt + coin.nValue.toInt :=
    toInt_add_of_bounds (by omega) (by omega)
  have elsewhere : ∀ other, other ≠ i →
      (search.vfIncluded.set i true)[other]? = search.vfIncluded[other]? :=
    fun other different => List.getElem?_set_ne different.symm
  rw [CoinSelection.includeCoin]
  dsimp only
  rw [Int64.add_sub_cancel, set_set_of_unmarked excluded]
  split_ifs with reached better
  · rw [Int64.le_iff_toInt_le] at reached
    rw [Int64.lt_iff_toInt_lt] at better
    refine ⟨⟨⟨?_, ?_⟩, including.length, including.sum⟩, fun _ _ => rfl⟩
    · intro best member
      rcases List.mem_cons.mp member with rfl | earlier
      · refine ⟨?_, ?_, reached, ?_⟩
        · rw [List.length_set, including.length]
        · rw [added, more, Int.add_comm]
        · rw [added]
          omega
      · exact including.improving.good best earlier
    · refine List.Pairwise.cons ?_ including.improving.decreasing
      intro earlier member
      rcases List.mem_cons.mp member with rfl | old
      · exact better
      · have later := List.rel_of_pairwise_cons including.improving.decreasing old
        exact better.trans later
  · exact ⟨⟨including.improving, including.length, including.sum⟩,
      fun _ _ => rfl⟩
  · refine ⟨⟨including.improving, ?_, ?_⟩, elsewhere⟩
    · rw [List.length_set, including.length]
    · rw [added, more, Int.add_comm]

/-- A coin is visited; in the first pass it was not included before. -/
theorem Including.visitCoin
    (searchable : Searchable vValue nTargetValue nTotalLower)
    (including : Including vValue nTargetValue nTotalLower search)
    (insecure_rand : Nat → Bool) {nPass : Nat} (inside : i < vValue.length)
    (new : nPass = 0 → search.vfIncluded[i]? = some false) :
    ∃ next,
      visitCoin vValue nTargetValue insecure_rand nPass search i = some next ∧
        Including vValue nTargetValue nTotalLower next ∧
        ∀ other, other ≠ i →
          next.vfIncluded[other]? = search.vfIncluded[other]? := by
  have found := List.getElem?_eq_getElem inside
  have marks := List.getElem?_eq_getElem
    (show i < search.vfIncluded.length by rw [including.length]; exact inside)
  rw [CoinSelection.visitCoin, found, marks]
  dsimp only
  split_ifs with first included isIncluded
  · have excluded := new first
    rcases including.includeCoin searchable found excluded with ⟨kept, others⟩
    exact ⟨_, rfl, kept, others⟩
  · exact ⟨search, rfl, including, fun _ _ => rfl⟩
  · rw [(Bool.not_eq_true' _).mp isIncluded] at marks
    rcases including.includeCoin searchable found marks with ⟨kept, others⟩
    exact ⟨_, rfl, kept, others⟩
  · exact ⟨search, rfl, including, fun _ _ => rfl⟩

theorem Including.visitCoins
    (searchable : Searchable vValue nTargetValue nTotalLower)
    (including : Including vValue nTargetValue nTotalLower search)
    (insecure_rand : Nat → Bool) {nPass : Nat}
    (new :
      nPass = 0 → ∀ i < vValue.length, search.vfIncluded[i]? = some false)
    {count : Nat} (few : count ≤ vValue.length) :
    ∃ next,
      (List.range count).foldlM
          (CoinSelection.visitCoin vValue nTargetValue insecure_rand nPass) search =
        some next ∧
      Including vValue nTargetValue nTotalLower next ∧
      ∀ other, count ≤ other →
        next.vfIncluded[other]? = search.vfIncluded[other]? := by
  induction count with
  | zero => exact ⟨search, rfl, including, fun _ _ => rfl⟩
  | succ count inductionHypothesis =>
      rcases inductionHypothesis (by omega) with ⟨before, folded, kept, others⟩
      have isNew : nPass = 0 → before.vfIncluded[count]? = some false := by
        intro first
        rw [others count (Nat.le_refl count)]
        exact new first count few
      rcases kept.visitCoin searchable insecure_rand few isNew with
        ⟨next, visited, stillKept, elsewhere⟩
      refine ⟨next, ?_, stillKept, ?_⟩
      · rw [List.range_succ, List.foldlM_append, folded]
        simp [visited]
      · intro other beyond
        rw [elsewhere other (by omega), others other (by omega)]

theorem Including.searchPass
    (searchable : Searchable vValue nTargetValue nTotalLower)
    (including : Including vValue nTargetValue nTotalLower search)
    (insecure_rand : Nat → Bool) {nPass : Nat}
    (new :
      nPass = 0 → ∀ i < vValue.length, search.vfIncluded[i]? = some false) :
    ∃ next,
      searchPass vValue nTargetValue insecure_rand search nPass = some next ∧
        Including vValue nTargetValue nTotalLower next := by
  rw [CoinSelection.searchPass]
  split_ifs
  · exact ⟨search, rfl, including⟩
  · rcases including.visitCoins searchable insecure_rand new (le_refl _) with
      ⟨next, folded, kept, -⟩
    exact ⟨next, folded, kept⟩

theorem Improving.searchRep
    (searchable : Searchable vValue nTargetValue nTotalLower)
    (improving : Improving vValue nTargetValue nTotalLower search.bests)
    (insecure_rand : Nat → Nat → Bool) (nRep : Nat) :
    ∃ next, searchRep vValue nTargetValue insecure_rand search nRep = some next ∧
      Improving vValue nTargetValue nTotalLower next.bests := by
  rw [CoinSelection.searchRep]
  split_ifs
  · exact ⟨search, rfl, improving⟩
  · let start : Search :=
      { search with
        vfIncluded := List.replicate vValue.length false
        nTotal := 0
        fReachedTarget := false }
    have including : Including vValue nTargetValue nTotalLower start := by
      refine ⟨improving, List.length_replicate, ?_⟩
      show 0 = total (marked (List.replicate vValue.length false) vValue)
      rw [marked_replicate_false]
      rfl
    have new : ∀ i < vValue.length, start.vfIncluded[i]? = some false := by
      intro i inside
      rw [List.getElem?_replicate, if_pos inside]
    rcases @Including.searchPass _ _ _ _ searchable including
        (insecure_rand nRep) 0 (fun _ => new) with ⟨middle, passed, kept⟩
    rcases @Including.searchPass _ _ _ _ searchable kept (insecure_rand nRep) 1
        nofun with ⟨next, passedAgain, stillKept⟩
    refine ⟨next, ?_, stillKept.improving⟩
    show List.foldlM _ start [0, 1] = some next
    simp only [List.foldlM_cons, List.foldlM_nil, passed, passedAgain,
      Option.bind_eq_bind, Option.bind_some, Option.pure_def]

/-- The search keeps its best subset sound, and only improves it. -/
theorem approximateBestSubset_improves
    (searchable : Searchable vValue nTargetValue nTotalLower)
    (insecure_rand : Nat → Nat → Bool) (iterations : Nat) :
    ∃ search,
      approximateBestSubset vValue nTotalLower nTargetValue insecure_rand
          iterations = some search ∧
        Improving vValue nTargetValue nTotalLower search.bests := by
  rw [approximateBestSubset]
  induction iterations with
  | zero =>
      refine ⟨_, rfl, ?_, List.pairwise_singleton _ _⟩
      intro best member
      rcases List.mem_singleton.mp member with rfl
      refine ⟨List.length_replicate, ?_, searchable.enough, le_refl _⟩
      rw [marked_replicate_true]
      exact searchable.sum
  | succ iterations inductionHypothesis =>
      rcases inductionHypothesis with ⟨search, folded, improving⟩
      rcases improving.searchRep searchable insecure_rand iterations with
        ⟨next, stepped, kept⟩
      refine ⟨next, ?_, kept⟩
      rw [List.range_succ, List.foldlM_append, folded]
      simp [stepped]

/-! ## The first loop -/

variable {nConfMine nConfTheirs : Int32} {vCoins seen : List COutput}
  {scan : Scan} {output : COutput}

/-- The coins with enough confirmations. -/
def eligibleCoins (nConfMine nConfTheirs : Int32) (vCoins : List COutput) :
    List Coin :=
  (vCoins.filter fun output => output.eligible nConfMine nConfTheirs).map
    COutput.coin

/-- The coins below the target and a cent. -/
def lowerCoins (nTargetValue : Int64) (coins : List Coin) : List Coin :=
  coins.filter fun coin => coin.nValue < nTargetValue + CENT

/-- What the first loop has found among the coins it has seen. -/
structure Scanned (nTargetValue : Int64) (coins : List Coin) (scan : Scan) :
    Prop where
  noMatch : ∀ coin ∈ coins, coin.nValue ≠ nTargetValue
  vValue : scan.vValue = lowerCoins nTargetValue coins
  sum : scan.nTotalLower.toInt = total (lowerCoins nTargetValue coins)
  larger :
    ∀ coin, scan.coinLowestLarger = some coin →
      coin ∈ coins ∧ ¬ coin.nValue < nTargetValue + CENT
  none :
    scan.coinLowestLarger = none → lowerCoins nTargetValue coins = coins

theorem eligibleCoins_concat (seen : List COutput) (output : COutput) :
    eligibleCoins nConfMine nConfTheirs (seen ++ [output]) =
      eligibleCoins nConfMine nConfTheirs seen ++
        if output.eligible nConfMine nConfTheirs then [output.coin] else [] := by
  rw [eligibleCoins, List.filter_append, List.map_append, eligibleCoins]
  by_cases isEligible : output.eligible nConfMine nConfTheirs
  · simp [isEligible]
  · simp [isEligible]

theorem total_append (first second : List Coin) :
    total (first ++ second) = total first + total second := by
  rw [total, List.map_append, List.sum_append, total, total]

theorem total_singleton (coin : Coin) : total [coin] = coin.nValue.toInt := by
  rw [total_cons, total, List.map_nil, List.sum_nil, Int.add_zero]

theorem lowerCoins_singleton (coin : Coin) :
    lowerCoins nTargetValue [coin] =
      if coin.nValue < nTargetValue + CENT then [coin] else [] := by
  rw [lowerCoins, List.filter_cons]
  simp only [List.filter_nil, decide_eq_true_eq]

theorem lowerCoins_append (first second : List Coin) :
    lowerCoins nTargetValue (first ++ second) =
      lowerCoins nTargetValue first ++ lowerCoins nTargetValue second :=
  List.filter_append ..

/-- One more coin that is eligible. -/
theorem Scanned.more
    (scanned : Scanned nTargetValue coins scan) (coin : Coin)
    (nonNegative : NonNegative (coins ++ [coin]))
    (money : total (coins ++ [coin]) ≤ MAX_MONEY.toInt)
    (other : coin.nValue ≠ nTargetValue) :
    Scanned nTargetValue (coins ++ [coin])
      (if coin.nValue < nTargetValue + CENT then
        { scan with
          vValue := scan.vValue ++ [coin]
          nTotalLower := scan.nTotalLower + coin.nValue }
      else if coin.nValue < scan.lowestLarger then
        { scan with coinLowestLarger := some coin }
      else scan) := by
  have noMatch : ∀ seen ∈ coins ++ [coin], seen.nValue ≠ nTargetValue := by
    intro seen member
    rcases List.mem_append.mp member with old | new
    · exact scanned.noMatch seen old
    · rwa [List.mem_singleton.mp new]
  have kept : ∀ seen, scan.coinLowestLarger = some seen →
      seen ∈ coins ++ [coin] ∧ ¬ seen.nValue < nTargetValue + CENT := by
    intro seen isLowest
    rcases scanned.larger seen isLowest with ⟨member, large⟩
    exact ⟨List.mem_append_left _ member, large⟩
  have olderNonNegative : NonNegative coins :=
    nonNegative.sublist (List.sublist_append_left _ _)
  have value := nonNegative coin (List.mem_append_right _ List.mem_cons_self)
  have smaller : (lowerCoins nTargetValue coins).Sublist coins :=
    List.filter_sublist
  have lower := total_nonneg (olderNonNegative.sublist smaller)
  have upper := total_le_of_sublist olderNonNegative smaller
  have limit : MAX_MONEY.toInt = 5200000000000000 := by decide
  rw [total_append, total_singleton] at money
  have sum := scanned.sum
  split_ifs with isLower isLowest
  · have parts : lowerCoins nTargetValue (coins ++ [coin]) =
        lowerCoins nTargetValue coins ++ [coin] := by
      rw [lowerCoins_append, lowerCoins_singleton, if_pos isLower]
    refine ⟨noMatch, ?_, ?_, kept, ?_⟩
    · rw [parts, scanned.vValue]
    · rw [parts, total_append, total_singleton, ← sum]
      exact toInt_add_of_bounds (by omega) (by omega)
    · intro noLarger
      rw [parts, scanned.none noLarger]
  · have parts : lowerCoins nTargetValue (coins ++ [coin]) =
        lowerCoins nTargetValue coins := by
      rw [lowerCoins_append, lowerCoins_singleton, if_neg isLower,
        List.append_nil]
    refine ⟨noMatch, ?_, ?_, ?_, nofun⟩
    · rw [parts, scanned.vValue]
    · rw [parts, sum]
    · intro seen isSeen
      cases isSeen
      exact ⟨List.mem_append_right _ List.mem_cons_self, isLower⟩
  · have parts : lowerCoins nTargetValue (coins ++ [coin]) =
        lowerCoins nTargetValue coins := by
      rw [lowerCoins_append, lowerCoins_singleton, if_neg isLower,
        List.append_nil]
    refine ⟨noMatch, ?_, ?_, kept, ?_⟩
    · rw [parts, scanned.vValue]
    · rw [parts, sum]
    · intro noLarger
      rw [Scan.lowestLarger, noLarger, Int64.lt_iff_toInt_lt] at isLowest
      exact absurd (show coin.nValue.toInt < Int64.maxValue.toInt by
        have most : Int64.maxValue.toInt = 9223372036854775807 := by decide
        omega) isLowest

theorem scanCoin_of_match
    (isEligible : output.eligible nConfMine nConfTheirs)
    (isMatch : output.coin.nValue = nTargetValue) :
    scanCoin nTargetValue nConfMine nConfTheirs scan output =
      .error output.coin := by
  have same : output.nValue = nTargetValue := isMatch
  rw [scanCoin, if_neg (not_not.mpr isEligible)]
  dsimp only
  rw [if_pos same]
  rfl

theorem scanCoin_of_other
    (isEligible : output.eligible nConfMine nConfTheirs)
    (other : output.coin.nValue ≠ nTargetValue) :
    scanCoin nTargetValue nConfMine nConfTheirs scan output =
      .ok (if output.coin.nValue < nTargetValue + CENT then
        { scan with
          vValue := scan.vValue ++ [output.coin]
          nTotalLower := scan.nTotalLower + output.coin.nValue }
      else if output.coin.nValue < scan.lowestLarger then
        { scan with coinLowestLarger := some output.coin }
      else scan) := by
  have differs : ¬ output.nValue = nTargetValue := other
  have same : output.coin.nValue = output.nValue := rfl
  rw [scanCoin, if_neg (not_not.mpr isEligible), same]
  dsimp only
  rw [if_neg differs]
  split_ifs <;> rfl

/-- The first loop leaves with a match, or has divided the coins. -/
theorem scanCoins_ends
    (nonNegative : NonNegative (eligibleCoins nConfMine nConfTheirs vCoins))
    (money :
      total (eligibleCoins nConfMine nConfTheirs vCoins) ≤ MAX_MONEY.toInt) :
    (∃ coin ∈ eligibleCoins nConfMine nConfTheirs vCoins,
      vCoins.foldlM (scanCoin nTargetValue nConfMine nConfTheirs) ⟨none, [], 0⟩ =
          .error coin ∧
        coin.nValue = nTargetValue) ∨
    ∃ scan,
      vCoins.foldlM (scanCoin nTargetValue nConfMine nConfTheirs) ⟨none, [], 0⟩ =
          .ok scan ∧
        Scanned nTargetValue (eligibleCoins nConfMine nConfTheirs vCoins) scan := by
  induction vCoins using List.reverseRecOn with
  | nil =>
      exact Or.inr ⟨_, rfl, nofun, rfl, rfl, nofun, fun _ => rfl⟩
  | append_singleton seen output inductionHypothesis =>
      rw [eligibleCoins_concat] at nonNegative money ⊢
      have older := nonNegative.sublist (List.sublist_append_left _ _)
      have rest := nonNegative.sublist (List.sublist_append_right _ _)
      have restTotal := total_nonneg rest
      have fewer := money
      rw [total_append] at fewer
      rcases inductionHypothesis older (by omega) with
        ⟨coin, member, left, isMatch⟩ | ⟨scan, folded, scanned⟩
      · refine Or.inl ⟨coin, List.mem_append_left _ member, ?_, isMatch⟩
        rw [List.foldlM_append, left]
        rfl
      · have last : (seen ++ [output]).foldlM
            (scanCoin nTargetValue nConfMine nConfTheirs) ⟨none, [], 0⟩ =
              scanCoin nTargetValue nConfMine nConfTheirs scan output := by
          rw [List.foldlM_append, folded]
          simp only [bind, Except.bind, List.foldlM_cons, List.foldlM_nil]
          cases scanCoin nTargetValue nConfMine nConfTheirs scan output <;> rfl
        rw [last]
        by_cases isEligible : output.eligible nConfMine nConfTheirs
        · rw [if_pos isEligible] at nonNegative money ⊢
          by_cases isMatch : output.coin.nValue = nTargetValue
          · refine Or.inl ⟨output.coin,
              List.mem_append_right _ List.mem_cons_self, ?_, isMatch⟩
            exact scanCoin_of_match isEligible isMatch
          · exact Or.inr ⟨_, scanCoin_of_other isEligible isMatch,
              scanned.more output.coin nonNegative money isMatch⟩
        · rw [if_neg isEligible, List.append_nil]
          refine Or.inr ⟨scan, ?_, scanned⟩
          rw [scanCoin, if_pos isEligible]
          rfl

/-! ## The selection -/

variable {chosen : List Coin} {selection : Selection}

/-- A set of some of the coins, and the sum of their values. -/
structure Exact (coins : List Coin) (selection : Selection) : Prop where
  fRet : selection.fRet = true
  subset : ∀ key ∈ selection.setCoinsRet, key ∈ coins.map Coin.key
  sum :
    selection.nValueRet.toInt =
      total (coins.filter fun coin => coin.key ∈ selection.setCoinsRet)

theorem foldl_add
    (nonNegative : NonNegative coins) (start : 0 ≤ selection.nValueRet.toInt)
    (fits : selection.nValueRet.toInt + total coins < 2 ^ 63) :
    (coins.foldl Selection.add selection).nValueRet.toInt =
        selection.nValueRet.toInt + total coins ∧
      ∀ key, key ∈ (coins.foldl Selection.add selection).setCoinsRet ↔
        key ∈ selection.setCoinsRet ∨ key ∈ coins.map Coin.key := by
  induction coins generalizing selection with
  | nil =>
      refine ⟨?_, ?_⟩
      · rw [List.foldl_nil, total, List.map_nil, List.sum_nil, Int.add_zero]
      · simp
  | cons coin coins inductionHypothesis =>
      rw [total_cons] at fits
      have value := nonNegative coin List.mem_cons_self
      have rest : NonNegative coins :=
        fun other member => nonNegative other (List.mem_cons_of_mem _ member)
      have restTotal := total_nonneg rest
      have added : (selection.add coin).nValueRet.toInt =
          selection.nValueRet.toInt + coin.nValue.toInt :=
        toInt_add_of_bounds (by omega) (by omega)
      rcases @inductionHypothesis (selection.add coin) rest (by omega)
          (by omega) with ⟨sum, members⟩
      refine ⟨?_, ?_⟩
      · rw [List.foldl_cons, sum, added, total_cons, Int.add_assoc]
      · intro key
        rw [List.foldl_cons, members, List.map_cons, List.mem_cons,
          Selection.add, Finset.mem_insert]
        tauto

/-- All of some coins are selected. -/
theorem selectAll_exact
    (distinct : (coins.map Coin.key).Nodup) (nonNegative : NonNegative coins)
    (money : total coins ≤ MAX_MONEY.toInt) (part : chosen.Subperm coins) :
    Exact coins (selectAll chosen) ∧
      (selectAll chosen).nValueRet.toInt = total chosen := by
  rcases part with ⟨smaller, same, sublist⟩
  have limit : MAX_MONEY.toInt = 5200000000000000 := by decide
  have less : total chosen ≤ total coins := by
    rw [← total_perm same]
    exact total_le_of_sublist nonNegative sublist
  have chosenNonNegative : NonNegative chosen :=
    fun coin member => nonNegative coin (sublist.mem (same.mem_iff.mpr member))
  rcases @foldl_add chosen .nothing chosenNonNegative (le_refl _)
      (by rw [show Selection.nothing.nValueRet.toInt = 0 from rfl]; omega) with
    ⟨sum, members⟩
  have isSum : (selectAll chosen).nValueRet.toInt = total chosen := by
    rw [show Selection.nothing.nValueRet.toInt = 0 from rfl, Int.zero_add] at sum
    exact sum
  have isMember : ∀ key, key ∈ (selectAll chosen).setCoinsRet ↔
      key ∈ chosen.map Coin.key := by
    intro key
    have either := members key
    rw [Selection.nothing] at either
    refine either.trans (or_iff_right ?_)
    exact Finset.notMem_empty key
  refine ⟨⟨rfl, ?_, ?_⟩, isSum⟩
  · intro key member
    rw [isMember, List.mem_map] at member
    rcases member with ⟨coin, isChosen, rfl⟩
    exact List.mem_map_of_mem (sublist.mem (same.mem_iff.mpr isChosen))
  · rw [isSum]
    apply total_perm
    have onceCoins := List.Nodup.of_map Coin.key distinct
    have onceSmaller := onceCoins.sublist sublist
    refine same.symm.trans ?_
    rw [List.perm_ext_iff_of_nodup onceSmaller (onceCoins.filter _)]
    intro coin
    rw [List.mem_filter, decide_eq_true_eq, isMember]
    constructor
    · intro member
      exact ⟨sublist.mem member,
        List.mem_map_of_mem (same.mem_iff.mp member)⟩
    · rintro ⟨member, isKey⟩
      rcases List.mem_map.mp isKey with ⟨other, isOther, sameKey⟩
      have inside := same.mem_iff.mpr isOther
      have equal := List.inj_on_of_nodup_map distinct (sublist.mem inside) member
        sameKey
      rwa [equal] at inside

/-- A selection from some of the coins is one from all of them. -/
theorem Exact.mono
    {others : List Coin} (isExact : Exact coins selection)
    (smaller : coins.Sublist others)
    (distinct : (others.map Coin.key).Nodup) : Exact others selection := by
  refine ⟨isExact.fRet, ?_, ?_⟩
  · intro key member
    exact (smaller.map _).mem (isExact.subset key member)
  · rw [isExact.sum]
    have once := List.Nodup.of_map Coin.key distinct
    apply total_perm
    rw [List.perm_ext_iff_of_nodup ((once.sublist smaller).filter _)
      (once.filter _)]
    intro coin
    rw [List.mem_filter, List.mem_filter, decide_eq_true_eq]
    refine and_congr_left fun selected => ⟨smaller.mem, fun member => ?_⟩
    rcases List.mem_map.mp (isExact.subset _ selected) with
      ⟨other, inside, sameKey⟩
    have equal := List.inj_on_of_nodup_map distinct (smaller.mem inside) member
      sameKey
    rwa [equal] at inside

/-! ## `SelectCoinsMinConf` -/

/-- What the function says about the target and the eligible coins. -/
structure Correct (nTargetValue : Int64) (coins : List Coin)
    (selection : Selection) : Prop where
  fails_iff : selection.fRet = false ↔ total coins < nTargetValue.toInt
  isExact : selection.fRet = true → Exact coins selection
  enough :
    selection.fRet = true → nTargetValue.toInt ≤ selection.nValueRet.toInt
  matching :
    selection.fRet = true →
      (∃ coin ∈ coins, coin.nValue = nTargetValue) ∨
        total (lowerCoins nTargetValue coins) = nTargetValue.toInt →
      selection.nValueRet = nTargetValue

/-- A successful selection is correct when the coins suffice. -/
theorem correct_selectAll
    (distinct : (coins.map Coin.key).Nodup) (nonNegative : NonNegative coins)
    (money : total coins ≤ MAX_MONEY.toInt) (part : chosen.Subperm coins)
    (enough : nTargetValue.toInt ≤ total chosen)
    (best :
      (∃ coin ∈ coins, coin.nValue = nTargetValue) ∨
        total (lowerCoins nTargetValue coins) = nTargetValue.toInt →
      total chosen = nTargetValue.toInt) :
    Correct nTargetValue coins (selectAll chosen) := by
  rcases selectAll_exact distinct nonNegative money part with ⟨isExact, sum⟩
  rcases part with ⟨smaller, same, sublist⟩
  have less := total_le_of_sublist nonNegative sublist
  rw [total_perm same] at less
  refine ⟨?_, fun _ => isExact, fun _ => sum ▸ enough, ?_⟩
  · rw [isExact.fRet]
    refine ⟨nofun, ?_⟩
    intro tooLittle
    omega
  · intro _ isMatch
    exact Int64.toInt_inj.mp (sum.trans (best isMatch))

theorem Correct.perm
    {others : List Coin} (correct : Correct nTargetValue coins selection)
    (same : coins.Perm others) : Correct nTargetValue others selection := by
  refine ⟨?_, ?_, correct.enough, ?_⟩
  · rw [correct.fails_iff, total_perm same]
  · intro succeeds
    have isExact := correct.isExact succeeds
    refine ⟨isExact.fRet, ?_, ?_⟩
    · intro key member
      exact (same.map _).mem_iff.mp (isExact.subset key member)
    · rw [isExact.sum, total_perm (same.filter _)]
  · intro succeeds isMatch
    refine correct.matching succeeds ?_
    have lower : (lowerCoins nTargetValue coins).Perm
        (lowerCoins nTargetValue others) := same.filter _
    rw [total_perm lower]
    refine isMatch.imp_left ?_
    rintro ⟨coin, member, isTarget⟩
    exact ⟨coin, same.mem_iff.mpr member, isTarget⟩

theorem toInt_add_CENT (room : nTargetValue.toInt + CENT.toInt < 2 ^ 63) :
    (nTargetValue + CENT).toInt = nTargetValue.toInt + 1000000 := by
  have cent : CENT.toInt = 1000000 := by decide
  have least := nTargetValue.le_toInt
  rw [← cent]
  exact toInt_add_of_bounds (by omega) (by omega)

/-- The choice between the best subset and the next larger coin. -/
theorem chooseSubset_correct
    (distinct : (coins.map Coin.key).Nodup) (nonNegative : NonNegative coins)
    (money : total coins ≤ MAX_MONEY.toInt)
    (room : nTargetValue.toInt + CENT.toInt < 2 ^ 63)
    (scanned : Scanned nTargetValue coins scan)
    (noMatch : scan.nTotalLower ≠ nTargetValue)
    (same : vValue.Perm scan.vValue) {best : Best}
    (good : Good vValue nTargetValue nTotalLower best) :
    Correct nTargetValue coins
      (chooseSubset scan vValue best nTargetValue) := by
  have cent := toInt_add_CENT room
  have unmatched : ¬ ((∃ coin ∈ coins, coin.nValue = nTargetValue) ∨
      total (lowerCoins nTargetValue coins) = nTargetValue.toInt) := by
    rintro (⟨coin, member, isMatch⟩ | isMatch)
    · exact scanned.noMatch coin member isMatch
    · rw [← scanned.sum] at isMatch
      exact noMatch (Int64.toInt_inj.mp isMatch)
  have subset : Correct nTargetValue coins
      (selectAll (marked best.vfBest vValue)) := by
    refine correct_selectAll distinct nonNegative money ?_ ?_
      fun isMatch => absurd isMatch unmatched
    · rw [scanned.vValue] at same
      exact (marked_sublist _ _).subperm.trans
        (same.subperm.trans List.filter_sublist.subperm)
    · exact good.sum ▸ good.enough
  rw [chooseSubset]
  split
  next coin isLowest =>
    rcases scanned.larger coin isLowest with ⟨member, large⟩
    split_ifs
    · refine correct_selectAll distinct nonNegative money
        (List.singleton_subperm_iff.mpr member) ?_
        fun isMatch => absurd isMatch unmatched
      rw [Int64.lt_iff_toInt_lt, cent] at large
      rw [total_singleton]
      omega
    · exact subset
  next => exact subset

theorem selectScanned_correct
    (distinct : (coins.map Coin.key).Nodup) (nonNegative : NonNegative coins)
    (money : total coins ≤ MAX_MONEY.toInt)
    (room : nTargetValue.toInt + CENT.toInt < 2 ^ 63)
    (scanned : Scanned nTargetValue coins scan) (choices : Choices) :
    ∃ selection, selectScanned scan nTargetValue choices = some selection ∧
      Correct nTargetValue coins selection := by
  have cent := toInt_add_CENT room
  have smaller : (lowerCoins nTargetValue coins).Sublist coins :=
    List.filter_sublist
  have lowerTotal := total_le_of_sublist nonNegative smaller
  have sum := scanned.sum
  rw [selectScanned]
  split_ifs with allMatch tooLittle
  · refine ⟨_, rfl, ?_⟩
    rw [scanned.vValue]
    rw [allMatch] at sum
    exact correct_selectAll distinct nonNegative money smaller.subperm
      (le_of_eq sum) fun _ => sum.symm
  · rw [Int64.lt_iff_toInt_lt] at tooLittle
    split
    next noLarger =>
      rw [scanned.none noLarger] at sum
      refine ⟨_, rfl, ⟨?_, nofun, nofun, nofun⟩⟩
      exact ⟨fun _ => sum ▸ tooLittle, fun _ => rfl⟩
    next coin isLowest =>
      rcases scanned.larger coin isLowest with ⟨member, large⟩
      rw [Int64.lt_iff_toInt_lt, cent] at large
      refine ⟨_, rfl, ?_⟩
      refine correct_selectAll distinct nonNegative money
        (List.singleton_subperm_iff.mpr member) ?_ ?_
      · rw [total_singleton]
        omega
      · rintro (⟨other, inside, isMatch⟩ | isMatch)
        · exact absurd isMatch (scanned.noMatch other inside)
        · omega
  · rw [Int64.lt_iff_toInt_lt] at tooLittle
    have same := choices.sort_perm scan.vValue
    have lowerPerm : (choices.sort scan.vValue).Perm
        (lowerCoins nTargetValue coins) := scanned.vValue ▸ same
    have sortedNonNegative : NonNegative (choices.sort scan.vValue) := by
      intro coin member
      exact nonNegative coin (smaller.mem (lowerPerm.mem_iff.mp member))
    have sortedSum : scan.nTotalLower.toInt =
        total (choices.sort scan.vValue) := sum.trans (total_perm lowerPerm).symm
    have searchable : Searchable (choices.sort scan.vValue) nTargetValue
        scan.nTotalLower :=
      ⟨sortedNonNegative, sortedSum, not_lt.mp tooLittle⟩
    rcases approximateBestSubset_improves searchable (choices.insecure_rand 0)
        1000 with ⟨first, found, improving⟩
    have good := improving.good first.toBest List.mem_cons_self
    simp only [found, Option.bind_eq_bind, Option.bind_some]
    split_ifs with again
    · have more := Int64.le_iff_toInt_le.mp again.2
      have raised : Searchable (choices.sort scan.vValue) (nTargetValue + CENT)
          scan.nTotalLower :=
        ⟨sortedNonNegative, sortedSum, more⟩
      rcases approximateBestSubset_improves raised (choices.insecure_rand 1)
          1000 with ⟨second, foundAgain, improvingAgain⟩
      have better := improvingAgain.good second.toBest List.mem_cons_self
      have stillGood : Good (choices.sort scan.vValue) nTargetValue
          scan.nTotalLower second.toBest := by
        refine ⟨better.length, better.sum, ?_, better.most⟩
        have enough := better.enough
        omega
      refine ⟨_, ?_, chooseSubset_correct distinct nonNegative money room
        scanned allMatch same stillGood⟩
      rw [foundAgain]
      rfl
    · exact ⟨_, rfl, chooseSubset_correct distinct nonNegative money room
        scanned allMatch same good⟩

theorem selectCoinsMinConf_ends
    (distinct : (vCoins.map fun output => output.coin.key).Nodup)
    (nonNegative : ∀ output ∈ vCoins, 0 ≤ output.nValue.toInt)
    (money : total (vCoins.map COutput.coin) ≤ MAX_MONEY.toInt)
    (room : nTargetValue.toInt + CENT.toInt < 2 ^ 63)
    (nConfMine nConfTheirs : Int32) (choices : Choices) :
    ∃ selection,
      selectCoinsMinConf nTargetValue nConfMine nConfTheirs vCoins choices =
        some selection ∧
      Correct nTargetValue (eligibleCoins nConfMine nConfTheirs vCoins)
        selection := by
  have shuffled : (eligibleCoins nConfMine nConfTheirs
      (choices.shuffle vCoins)).Perm
        (eligibleCoins nConfMine nConfTheirs vCoins) :=
    ((choices.shuffle_perm vCoins).filter _).map _
  have part : (eligibleCoins nConfMine nConfTheirs vCoins).Sublist
      (vCoins.map COutput.coin) := List.filter_sublist.map _
  have allNonNegative : NonNegative (vCoins.map COutput.coin) := by
    intro coin member
    rcases List.mem_map.mp member with ⟨output, isOutput, rfl⟩
    exact nonNegative output isOutput
  have eligibleNonNegative : NonNegative
      (eligibleCoins nConfMine nConfTheirs (choices.shuffle vCoins)) :=
    fun coin member =>
      allNonNegative coin (part.mem (shuffled.mem_iff.mp member))
  have eligibleMoney :
      total (eligibleCoins nConfMine nConfTheirs (choices.shuffle vCoins)) ≤
        MAX_MONEY.toInt := by
    rw [total_perm shuffled]
    exact (total_le_of_sublist allNonNegative part).trans money
  have eligibleDistinct :
      ((eligibleCoins nConfMine nConfTheirs (choices.shuffle vCoins)).map
        Coin.key).Nodup := by
    rw [(shuffled.map Coin.key).nodup_iff]
    have keys : ((vCoins.map COutput.coin).map Coin.key).Nodup := by
      rw [List.map_map]
      exact distinct
    exact keys.sublist (part.map _)
  rcases @scanCoins_ends nTargetValue nConfMine nConfTheirs _
      eligibleNonNegative eligibleMoney with
    ⟨coin, member, left, isMatch⟩ | ⟨scan, folded, scanned⟩
  · have sum : total [coin] = nTargetValue.toInt := by
      rw [total_singleton, isMatch]
    refine ⟨selectAll [coin], ?_, ?_⟩
    · rw [selectCoinsMinConf, left]
    · refine (correct_selectAll eligibleDistinct eligibleNonNegative eligibleMoney
        (List.singleton_subperm_iff.mpr member) (le_of_eq sum.symm)
        fun _ => sum).perm shuffled
  · rcases selectScanned_correct eligibleDistinct eligibleNonNegative eligibleMoney
        room scanned choices with ⟨selection, selected, correct⟩
    refine ⟨selection, ?_, correct.perm shuffled⟩
    rw [selectCoinsMinConf, folded]
    exact selected

/--
The function fails exactly when the eligible coins do not suffice, selects a
set of them with the sum it returns, and takes every match it looks for.  The
search keeps its best subset sound and never makes it worse.
-/
theorem selectCoinsMinConf_correct
    (distinct : (vCoins.map fun output => output.coin.key).Nodup)
    (nonNegative : ∀ output ∈ vCoins, 0 ≤ output.nValue.toInt)
    (money : total (vCoins.map COutput.coin) ≤ MAX_MONEY.toInt)
    (room : nTargetValue.toInt + CENT.toInt < 2 ^ 63)
    (nConfMine nConfTheirs : Int32) (choices : Choices) :
    (∃ selection,
      selectCoinsMinConf nTargetValue nConfMine nConfTheirs vCoins choices =
        some selection ∧
      Correct nTargetValue (eligibleCoins nConfMine nConfTheirs vCoins)
        selection) ∧
    ∀ (vValue : List Coin) (nTargetValue nTotalLower : Int64),
      Searchable vValue nTargetValue nTotalLower →
        ∀ insecure_rand iterations, ∃ search,
          approximateBestSubset vValue nTotalLower nTargetValue insecure_rand
              iterations = some search ∧
            Improving vValue nTargetValue nTotalLower search.bests :=
  ⟨selectCoinsMinConf_ends distinct nonNegative money room nConfMine nConfTheirs
    choices, fun _ _ _ searchable insecure_rand iterations =>
      approximateBestSubset_improves searchable insecure_rand iterations⟩

/-- Coins that are not shuffled, and random bits that are all set. -/
def plainChoices : Choices where
  shuffle := id
  shuffle_perm := fun _ => List.Perm.refl _
  sort := fun coins => coins.mergeSort fun first second =>
    second.nValue ≤ first.nValue
  sort_perm := fun _ => List.mergeSort_perm _ _
  sort_sorted := by
    intro coins
    have sorted := @List.pairwise_mergeSort Coin
      (fun first second => second.nValue ≤ first.nValue)
      (fun first second third left right => by
        rw [decide_eq_true_eq] at left right ⊢
        exact Int64.le_trans right left)
      (fun first second => by
        rw [Bool.or_eq_true, decide_eq_true_eq, decide_eq_true_eq]
        exact Int64.le_total _ _) coins
    simpa only [decide_eq_true_eq] using sorted
  insecure_rand := fun _ _ _ => true

/-- The first output of a transaction of ours, with six confirmations. -/
def ownOutput (address : Nat) (nValue : Int64) : COutput where
  tx := ⟨address, [⟨nValue, []⟩], true⟩
  i := 0
  nDepth := 6
  inside := by simp

theorem selectCoinsMinConf_correct_two :
    (∃ selection,
      selectCoinsMinConf 300 1 6 [ownOutput 1 100, ownOutput 2 400] plainChoices =
        some selection ∧
      Correct 300 (eligibleCoins 1 6 [ownOutput 1 100, ownOutput 2 400])
        selection) ∧
    ∀ (vValue : List Coin) (nTargetValue nTotalLower : Int64),
      Searchable vValue nTargetValue nTotalLower →
        ∀ insecure_rand iterations, ∃ search,
          approximateBestSubset vValue nTotalLower nTargetValue insecure_rand
              iterations = some search ∧
            Improving vValue nTargetValue nTotalLower search.bests :=
  selectCoinsMinConf_correct (by decide) (by decide) (by decide) (by decide) 1 6
    plainChoices

/-- The sum of the largest target and a cent is negative. -/
theorem selectCoinsMinConf_largest :
    ∃ selection,
      selectCoinsMinConf Int64.maxValue 1 6 [ownOutput 1 100] plainChoices =
        some selection ∧
      ¬ Correct Int64.maxValue (eligibleCoins 1 6 [ownOutput 1 100])
        selection := by
  refine ⟨⟨true, {(1, 0)}, 100⟩, by decide, ?_⟩
  intro correct
  have wrong := correct.fails_iff.mpr (by decide)
  cases wrong

end DSValue.Wallet.CoinSelection

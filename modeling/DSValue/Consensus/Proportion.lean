import DSValue.Consensus.DrawOrder
import DSValue.Consensus.Solvency
import Mathlib.Algebra.Order.Ring.Int

/-!
# Sharing an oversubscribed tier

The scheme divides the cap of an oversubscribed tier by its coins, the share
by the total and multiplies with a prize only then, so that it is zero.  A
bet is paid its share of the cap up to its own coins only if that share is
less than one for each coin.

What a bet gets depends on its type and its prize map, and so on its type,
its winning tickets and the price of one ticket.
-/

namespace DSValue.Consensus.Proportion

open DSValue.Lib
open DSValue.Lib.Budget
open DSValue.Core.Serialize
open DSValue.Core.Transaction
open DSValue.Script.Scan
open DSValue.Lotto.Bet
open DSValue.Lotto.Draw
open DSValue.Lotto.Tickets
open DSValue.Lotto.Payout
open DSValue.Consensus.TxOut
open DSValue.Consensus.Drawable
open DSValue.Consensus.DrawOrder
open DSValue.Consensus.Solvency

/-! ## What a bet gets from one tier -/

/-- `_maxreward`. -/
def maxrewardOf (rt : RwdType) (availablereward : Int64) : Int64 :=
  if rt = .top5 then availablereward else availablereward * 8 / 10

/-- What `GetReWardOutput` adds to the output of a bet for a tier. -/
def tierPayout (scheme : RewardScheme) (bet : CBet) (rt : RwdType) :
    Except Fault Int64 :=
  match bet.rewardmap rt with
  | none => pure 0
  | some second =>
      match scheme bet.type rt with
      | some perCoin => pure (perCoin * second)
      | none => do
          let multi ← getMulit bet.type rt
          pure (multi * second)

/-- The output of a bet is the sum of what it gets from the tiers. -/
theorem payPrizes_eq
    (scheme : RewardScheme) (bet : CBet) (tiers : List RwdType)
    (nValue : Int64) :
    payPrizes scheme bet tiers nValue =
      (tiers.mapM (tierPayout scheme bet)).map
        (fun parts => nValue + parts.sum) := by
  induction tiers generalizing nValue with
  | nil => simp [payPrizes, Except.map, pure, Except.pure]
  | cons rt rest inductionHypothesis =>
      have others (part : Int64) :
          payPrizes scheme bet rest (nValue + part) =
            (do
                let parts ← rest.mapM (tierPayout scheme bet)
                pure (part :: parts)).map
              (fun parts : List Int64 => nValue + parts.sum) := by
        rw [inductionHypothesis]
        cases rest.mapM (tierPayout scheme bet) with
        | error fault => rfl
        | ok parts =>
            simp [Except.map, bind, Except.bind, pure, Except.pure,
              Int64.add_assoc]
      rw [payPrizes, List.mapM_cons, tierPayout]
      cases entry : bet.rewardmap rt with
      | none =>
          have nothing := others 0
          rw [Int64.add_zero] at nothing
          exact nothing
      | some second =>
          cases share : scheme bet.type rt with
          | some perCoin => exact others (perCoin * second)
          | none =>
              cases multiplier : getMulit bet.type rt with
              | error fault => rfl
              | ok multi => exact others (multi * second)

/-! ## Proportional shares -/

/--
Every winner of an oversubscribed tier gets its share of the cap, up to less
than one for each of its coins.
-/
def SharesCap (lotto : CLotto) : Prop :=
  ∃ scheme, lotto.createStatisticsRewardMap = .ok scheme ∧
    ∀ before rt rest, RwdType.all = before ++ rt :: rest →
      ∀ availablereward,
        availableAfter lotto.vBet before (lotto.rewardPool * 8 / 10) =
          .ok availablereward →
        (maxrewardOf rt availablereward).toInt <
          nominalTotal lotto.vBet rt →
        ∀ bet ∈ lotto.vBet, ∀ second, bet.rewardmap rt = some second →
          ∃ payout, tierPayout scheme bet rt = .ok payout ∧
            |payout.toInt * nominalTotal lotto.vBet rt -
                (maxrewardOf rt availablereward).toInt * nominal bet rt| <
              second.toInt * nominalTotal lotto.vBet rt

/--
In every tier whose demand exceeds its cap, a cap for each coin of a winner
stays below the demand.
-/
def LessThanOneEach
    (demand : RwdType → Nat) (winners : BetType → RwdType → Prop)
    (budget : Int) : Prop :=
  ∀ before rt rest, RwdType.all = before ++ rt :: rest →
    tierCap rt (leftAfter tierCap demand before budget) < demand rt →
      ∀ type, winners type rt →
        tierCap rt (leftAfter tierCap demand before budget) *
          multiple type rt < demand rt

/-- Some bet of a type wins in a tier. -/
def HasWinner (vBet : List CBet) (type : BetType) (rt : RwdType) : Prop :=
  ∃ bet ∈ vBet, bet.type = type ∧ (bet.rewardmap rt).isSome = true

/-- The share is within one coin exactly when it is below one coin. -/
theorem zero_within_iff
    {cap total : Int} {multi coins : Nat}
    (nonneg : 0 ≤ cap) (positive : 0 < coins) :
    |0 * total - cap * (multi * coins : Nat)| < coins * total ↔
      cap * multi < total := by
  have coinsPos : (0 : Int) < coins := by exact_mod_cast positive
  have share : 0 ≤ cap * (multi * coins : Nat) :=
    Int.mul_nonneg nonneg (Int.natCast_nonneg _)
  have rearranged :
      cap * (multi * coins : Nat) = coins * (cap * multi) := by
    push_cast
    ring
  rw [Int.zero_mul, Int.zero_sub, abs_neg, abs_of_nonneg share, rearranged]
  exact Int.mul_lt_mul_left coinsPos

theorem sharesCap_iff
    {lotto : CLotto} (payable : ∀ bet ∈ lotto.vBet, Payable bet)
    (fits : PrizesFit lotto.vBet)
    (nonneg : 0 ≤ lotto.rewardPool.toInt)
    (small : lotto.rewardPool.toInt < 2 ^ 53) :
    SharesCap lotto ↔
      LessThanOneEach (tierTotal lotto.vBet) (HasWinner lotto.vBet)
        (lotto.rewardPool.toInt * 8 / 10) := by
  have available := available_eq nonneg small
  have nodup : RwdType.all.Nodup := by decide
  rcases statisticsLoop_served payable fits nodup
    (lotto.rewardPool * 8 / 10) (fun _ _ => none) (by omega) (by omega)
    (by simp) with ⟨scheme, found, settlement⟩
  rw [available] at settlement
  have split {before rest : List RwdType} {rt : RwdType}
      (isAll : RwdType.all = before ++ rt :: rest) :
      ∃ left,
        availableAfter lotto.vBet before (lotto.rewardPool * 8 / 10) =
          .ok left ∧
        (maxrewardOf rt left).toInt =
          tierCap rt (leftAfter tierCap (tierTotal lotto.vBet) before
            (lotto.rewardPool.toInt * 8 / 10)) ∧
        0 ≤ (maxrewardOf rt left).toInt := by
    rcases statisticsLoop_reaches payable fits (isAll ▸ nodup)
        (lotto.rewardPool * 8 / 10) (fun _ _ => none) (by omega) (by omega)
        (by simp) with ⟨left, next, after, -, value, -⟩
    rw [available] at value
    have bounds :=
      @leftAfter_bounds _ tierCap (tierTotal lotto.vBet) tierCap_lawful before
        (lotto.rewardPool.toInt * 8 / 10) (by omega)
    have capValue : (maxrewardOf rt left).toInt = tierCap rt left.toInt :=
      maxreward_eq rt (by omega) (by omega)
    have capBounds := tierCap_lawful rt left.toInt (by omega)
    exact ⟨left, after, by rw [capValue, value], by omega⟩
  have nothing {before rest : List RwdType} {rt : RwdType}
      (isAll : RwdType.all = before ++ rt :: rest)
      (exceeds :
        tierCap rt (leftAfter tierCap (tierTotal lotto.vBet) before
          (lotto.rewardPool.toInt * 8 / 10)) < tierTotal lotto.vBet rt)
      {bet : CBet} (member : bet ∈ lotto.vBet) {second : Int64}
      (entry : bet.rewardmap rt = some second) :
      tierPayout scheme bet rt = .ok 0 := by
    have absent : rt ∉ before := by
      have distinct := isAll ▸ nodup
      rw [List.nodup_middle, List.nodup_cons] at distinct
      exact fun inBefore =>
        distinct.1 (List.mem_append_left rest inBefore)
    have inAll : rt ∈ RwdType.all := by
      rw [isAll]
      exact List.mem_append_right before List.mem_cons_self
    have unpaid :
        served tierCap (tierTotal lotto.vBet) RwdType.all
          (lotto.rewardPool.toInt * 8 / 10) rt = false := by
      rw [isAll, served_append _ _ absent]
      simpa using exceeds
    have zero :=
      (settlement.serves rt inAll).nothing unpaid bet member
        (by rw [entry]; rfl)
    simp only [tierPayout, entry, zero, Int64.zero_mul]
    rfl
  have scaled {bet : CBet} (member : bet ∈ lotto.vBet) {rt : RwdType}
      {second : Int64} (entry : bet.rewardmap rt = some second) :
      nominal bet rt = (multiple bet.type rt * won bet rt : Nat) ∧
        second.toInt = won bet rt ∧ 0 < won bet rt := by
    have betPayable := payable bet member
    have value := won_of_some betPayable entry
    have positive := betPayable.positive rt second entry
    exact ⟨nominal_eq_prize betPayable rt, value, by omega⟩
  constructor
  · rintro ⟨other, otherFound, shares⟩ before rt rest isAll exceeds type
      ⟨bet, member, rfl, wins⟩
    rw [CLotto.createStatisticsRewardMap, found] at otherFound
    cases otherFound
    rcases Option.isSome_iff_exists.mp wins with ⟨second, entry⟩
    rcases split isAll with ⟨left, after, capValue, capNonneg⟩
    have total := nominalTotal_eq payable rt
    rcases shares before rt rest isAll left after
        (by rw [capValue, total]; exact exceeds) bet member second entry with
      ⟨payout, computed, close⟩
    rw [nothing isAll exceeds member entry] at computed
    cases computed
    rcases scaled member entry with ⟨isNominal, coins, positive⟩
    rw [isNominal, coins, total] at close
    have bound := (zero_within_iff capNonneg positive).mp close
    rw [capValue] at bound
    exact bound
  · intro below
    refine ⟨scheme, found, ?_⟩
    intro before rt rest isAll left after exceeds bet member second entry
    rcases split isAll with ⟨other, otherAfter, capValue, capNonneg⟩
    rw [otherAfter] at after
    cases after
    have total := nominalTotal_eq payable rt
    rw [capValue, total] at exceeds
    refine ⟨0, nothing isAll exceeds member entry, ?_⟩
    rcases scaled member entry with ⟨isNominal, coins, positive⟩
    have bound :=
      below before rt rest isAll exceeds bet.type
        ⟨bet, member, rfl, by rw [entry]; rfl⟩
    rw [← capValue] at bound
    rw [isNominal, coins, total]
    exact (zero_within_iff capNonneg positive).mpr bound

/-! ## Outputs -/

theorem readyBet_of_sound
    {stars : BetType → List UInt8} {txout : CTxOut} {bet : CBet}
    (parsed : betOf txout = some bet) (valid : bet.isValid = .ok true)
    (fewReds : FewReds bet) (hasFlag : HasFlag stars)
    (fits : WonFits stars txout) :
    ∃ ready, readyBet stars txout = some ready ∧ ready.type = bet.type ∧
      PaysExactly ready.rewardmap (wonValue stars bet) := by
  rcases betOf_eq_some.mp parsed with ⟨data, found, built⟩
  rcases initBet_ok found built valid fewReds hasFlag (fits bet parsed) with
    ⟨ready, ran, types, -, -, pays⟩
  exact ⟨ready, by rw [readyBet, ran]; rfl, types, pays⟩

theorem isSome_iff_of_paysExactly
    {rewardmap : RewardMap} {won : RwdType → Nat}
    (pays : PaysExactly rewardmap won) (rt : RwdType) :
    (rewardmap rt).isSome = true ↔ 0 < won rt := by
  have entry := pays rt
  cases value : rewardmap rt with
  | none =>
      rw [value] at entry
      simp [entry]
  | some second =>
      rw [value] at entry
      simp [entry.1]

theorem PaysExactly.unique
    {first second : RewardMap} {won : RwdType → Nat}
    (firstPays : PaysExactly first won)
    (secondPays : PaysExactly second won) :
    first = second := by
  funext rt
  have left := firstPays rt
  have right := secondPays rt
  cases leftEntry : first rt with
  | none =>
      cases rightEntry : second rt with
      | none => rfl
      | some value =>
          rw [leftEntry] at left
          rw [rightEntry] at right
          omega
  | some value =>
      cases rightEntry : second rt with
      | none =>
          rw [leftEntry] at left
          rw [rightEntry] at right
          omega
      | some other =>
          rw [leftEntry] at left
          rw [rightEntry] at right
          have same : value = other := by
            rw [← Int64.toInt_inj, left.2, right.2]
          rw [same]

/-- Some output of a bet type has winning tickets in a tier. -/
def OutputWins
    (stars : BetType → List UInt8) (vBet : List CTxOut) (type : BetType)
    (rt : RwdType) : Prop :=
  ∃ txout ∈ vBet, ∃ bet, betOf txout = some bet ∧ bet.type = type ∧
    0 < winningTickets (stars bet.type) bet.vch bet.type rt

/-- Two bets of one type win as many tickets of the same price. -/
def SamePlay (stars : BetType → List UInt8) (left right : CBet) : Prop :=
  left.type = right.type ∧
    (∀ rt,
      winningTickets (stars left.type) left.vch left.type rt =
        winningTickets (stars right.type) right.vch right.type rt) ∧
    ticketPrice left = ticketPrice right

theorem wonValue_pos_iff
    {stars : BetType → List UInt8} {bet : CBet}
    (valid : bet.isValid = .ok true) (fewReds : FewReds bet) (rt : RwdType) :
    0 < wonValue stars bet rt ↔
      0 < winningTickets (stars bet.type) bet.vch bet.type rt := by
  have price := ticketPrice_pos (wellFormed_of_isValid valid) fewReds
  rw [wonValue]
  exact Nat.mul_pos_iff_of_pos_right price

theorem hasWinner_iff
    {stars : BetType → List UInt8} {vBet : List CTxOut}
    (sound : ∀ txout ∈ vBet, OwnsSoundBet txout) (hasFlag : HasFlag stars)
    (fits : ∀ txout ∈ vBet, WonFits stars txout) (type : BetType)
    (rt : RwdType) :
    HasWinner (vBet.filterMap (readyBet stars)) type rt ↔
      OutputWins stars vBet type rt := by
  constructor
  · rintro ⟨ready, member, isType, wins⟩
    rcases List.mem_filterMap.mp member with ⟨txout, inBets, isReady⟩
    rcases sound txout inBets with ⟨bet, parsed, valid, fewReds⟩
    rcases readyBet_of_sound parsed valid fewReds hasFlag (fits txout inBets)
      with ⟨other, otherReady, types, pays⟩
    rw [isReady] at otherReady
    cases otherReady
    refine ⟨txout, inBets, bet, parsed, types.symm.trans isType, ?_⟩
    rw [← wonValue_pos_iff valid fewReds,
      ← isSome_iff_of_paysExactly pays rt]
    exact wins
  · rintro ⟨txout, inBets, bet, parsed, isType, wins⟩
    rcases sound txout inBets with ⟨own, ownParsed, valid, fewReds⟩
    rw [parsed] at ownParsed
    cases ownParsed
    rcases readyBet_of_sound parsed valid fewReds hasFlag (fits txout inBets)
      with ⟨ready, isReady, types, pays⟩
    refine ⟨ready, List.mem_filterMap.mpr ⟨txout, inBets, isReady⟩,
      types.trans isType, ?_⟩
    rw [isSome_iff_of_paysExactly pays rt, wonValue_pos_iff valid fewReds]
    exact wins

/-- Equal plays are paid equally, whatever the scheme. -/
theorem samePlay_paid_equally
    {stars : BetType → List UInt8} {left right : CTxOut}
    {leftBet rightBet leftReady rightReady : CBet}
    (hasFlag : HasFlag stars)
    (leftSound : OwnsSoundBet left) (rightSound : OwnsSoundBet right)
    (leftFits : WonFits stars left) (rightFits : WonFits stars right)
    (leftParsed : betOf left = some leftBet)
    (rightParsed : betOf right = some rightBet)
    (same : SamePlay stars leftBet rightBet)
    (leftBuilt : readyBet stars left = some leftReady)
    (rightBuilt : readyBet stars right = some rightReady)
    (scheme : RewardScheme) :
    payPrizes scheme leftReady RwdType.all 0 =
      payPrizes scheme rightReady RwdType.all 0 := by
  rcases leftSound with ⟨_, parsed, leftValid, leftFew⟩
  rw [leftParsed] at parsed
  cases parsed
  rcases rightSound with ⟨_, parsed, rightValid, rightFew⟩
  rw [rightParsed] at parsed
  cases parsed
  rcases readyBet_of_sound leftParsed leftValid leftFew hasFlag leftFits with
    ⟨_, isReady, leftTypes, leftPays⟩
  rw [leftBuilt] at isReady
  cases isReady
  rcases readyBet_of_sound rightParsed rightValid rightFew hasFlag rightFits
    with ⟨_, isReady, rightTypes, rightPays⟩
  rw [rightBuilt] at isReady
  cases isReady
  rcases same with ⟨types, tickets, prices⟩
  have values : wonValue stars leftBet = wonValue stars rightBet := by
    funext rt
    rw [wonValue, wonValue, tickets rt, prices]
  rw [values] at leftPays
  have maps : leftReady.rewardmap = rightReady.rewardmap :=
    PaysExactly.unique leftPays rightPays
  have readyTypes : leftReady.type = rightReady.type := by
    rw [leftTypes, rightTypes, types]
  have payouts : tierPayout scheme leftReady = tierPayout scheme rightReady := by
    funext rt
    rw [tierPayout, tierPayout, maps, readyTypes]
  rw [payPrizes_eq, payPrizes_eq, payouts]

theorem drawn_sharesCap_iff
    {env : DrawEnv} {hash : Uint256} {stars : BetType → List UInt8}
    {vBet : List CTxOut} {pool : Int64}
    (nonzero : hash ≠ 0)
    (drawn : createLuckyStarMap env hash = .ok stars)
    (sound : ∀ txout ∈ vBet, OwnsSoundBet txout)
    (fits : OutputPrizesFit stars vBet)
    (nonneg : 0 ≤ pool.toInt) (small : pool.toInt < 2 ^ 53) :
    ∃ lotto, CLotto.ofHash env hash pool vBet = .ok lotto ∧
      (SharesCap lotto ↔
        LessThanOneEach (outputTotal stars vBet) (OutputWins stars vBet)
          (pool.toInt * 8 / 10)) := by
  have hasFlag := hasFlag_of_createLuckyStarMap drawn
  have wonFits :=
    fun txout member =>
      wonFits_of_outputPrize (outputPrize_lt fits txout member)
  rcases mapM_initBet_payable sound hasFlag wonFits with
    ⟨bets, built, payable, sizes, totals⟩
  have betsFit : PrizesFit bets := by
    intro rt
    rw [totals, sizes]
    exact fits rt
  have sameTotals : tierTotal bets = outputTotal stars vBet := by
    funext rt
    exact totals rt
  have winners : HasWinner bets = OutputWins stars vBet := by
    funext type rt
    rw [mapM_eq_filterMap built]
    exact propext (hasWinner_iff sound hasFlag wonFits type rt)
  have shares := @sharesCap_iff ⟨bets, pool⟩ payable betsFit nonneg small
  rw [sameTotals, winners] at shares
  refine ⟨⟨bets, pool⟩, ?_, shares⟩
  rw [CLotto.ofHash, if_neg nonzero, drawn]
  simp only [bind, Except.bind] at built ⊢
  rw [built]
  rfl

theorem templateBets_sound (count : Nat) :
    ∀ txout ∈ List.replicate count templateBet, OwnsSoundBet txout := by
  intro txout member
  rw [List.eq_of_mem_replicate member]
  decide

theorem templateBet_numbers :
    (betOf templateBet).map (fun bet => (bet.type, bet.vch)) =
      some (.type15_6, [1, 2, 3, 4, 5, 6]) := by
  decide

theorem split_top1
    {before rest : List RwdType}
    (isAll : RwdType.all = before ++ .top1 :: rest) : before = [] := by
  cases before with
  | nil => rfl
  | cons first others =>
      have twice := isAll
      rw [RwdType.all, List.cons_append, List.cons.injEq] at twice
      have again : RwdType.top1 ∈ [RwdType.top2, .top3, .top4, .top5] := by
        rw [twice.2]
        exact List.mem_append_right others List.mem_cons_self
      exact absurd again (by decide)

/-- The values that a draw by `countingEnv` pays two winners of a tier. -/
def twoWinnersPaid (pool : Int64) : Except Fault (List Int64) := do
  let paid ←
    drawOutputs countingEnv 255 pool (List.replicate 2 templateBet)
  pure (paid.1.map CTxOut.nValue)

end DSValue.Consensus.Proportion

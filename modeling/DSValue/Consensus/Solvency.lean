import DSValue.Consensus.Drawable

/-!
# What a draw may spend

`StaysInRange` says that no number of a draw leaves the range of an
`int64_t`: neither the prize of a bet in a tier, nor the total of a tier over
the first bets, nor what is left of the pool.  Together with the outputs it
is what a solvent draw has to satisfy.

For sound bets a draw is solvent when the totals of the tiers stay below
`2 ^ 63` by the room for rounding, and only when they stay below `2 ^ 63`.
-/

namespace DSValue.Consensus.Solvency

open DSValue.Lib
open DSValue.Lib.Budget
open DSValue.Core.Serialize
open DSValue.Core.Transaction
open DSValue.Script.Scan
open DSValue.Lotto.Bet
open DSValue.Lotto.Draw
open DSValue.Lotto.Tickets
open DSValue.Lotto.Payout
open DSValue.Consensus.TxOut
open DSValue.Consensus.Drawable

/-! ## Ranges -/

/-- The value is one of an `int64_t`. -/
def InRange (value : Int) : Prop :=
  -2 ^ 63 ≤ value ∧ value < 2 ^ 63

/-- `GetMulit(t) * rewardmap[t]` over the integers, zero without a prize. -/
def nominal (bet : CBet) (rt : RwdType) : Int :=
  match bet.rewardmap rt, getMulit bet.type rt with
  | some second, .ok multi => multi.toInt * second.toInt
  | _, _ => 0

/-- `reward_total` over the integers. -/
def nominalTotal (vBet : List CBet) (rt : RwdType) : Int :=
  (vBet.map fun bet => nominal bet rt).sum

/-- The totals as demands on the pool. -/
def demands (vBet : List CBet) (rt : RwdType) : Nat :=
  (nominalTotal vBet rt).toNat

/--
No prize, no total over the first bets and no budget leaves the range, and
totals below `2 ^ 53` and budgets are computed exactly.
-/
structure StaysInRange (lotto : CLotto) : Prop where
  products : ∀ bet ∈ lotto.vBet, ∀ rt, InRange (nominal bet rt)
  totals :
    ∀ before rest, lotto.vBet = before ++ rest →
      ∀ rt, InRange (nominalTotal before rt) ∧
        ∃ total, rewardTotal before rt = .ok total ∧ 0 ≤ total.toInt ∧
          (nominalTotal before rt < 2 ^ 53 →
            total.toInt = nominalTotal before rt)
  available :
    ∀ before rest, RwdType.all = before ++ rest →
      ∃ availablereward scheme,
        availableAfter lotto.vBet before (lotto.rewardPool * 8 / 10) =
          .ok availablereward ∧
        lotto.createStatisticsRewardMap =
          statisticsLoop lotto.vBet rest availablereward scheme ∧
        availablereward.toInt =
          leftAfter tierCap (demands lotto.vBet) before
            (lotto.rewardPool.toInt * 8 / 10) ∧
        0 ≤ availablereward.toInt ∧
        availablereward.toInt ≤ lotto.rewardPool.toInt * 8 / 10

/-- The outputs are not negative and stay within four fifths of the pool. -/
def PaysWithin (lotto : CLotto) : Prop :=
  ∃ vOuts llRemains,
    CLotto.getReWardOutput lotto = .ok (vOuts, llRemains) ∧
    (∀ txout ∈ vOuts, 0 ≤ txout.nValue.toInt) ∧
    totalValue vOuts ≤ lotto.rewardPool.toInt * 8 / 10

/-- A draw that stays in range and pays within its pool. -/
structure Solvent (lotto : CLotto) : Prop where
  range : StaysInRange lotto
  pays : PaysWithin lotto

/-! ## Payable bets -/

theorem nominal_eq_prize
    {bet : CBet} (payable : Payable bet) (rt : RwdType) :
    nominal bet rt = prize bet rt := by
  cases entry : bet.rewardmap rt with
  | none => simp [nominal, prize, won, entry]
  | some second =>
      rcases getMulit_eq (payable.tiers rt second entry) with
        ⟨multi, multiplier, factor, -⟩
      simp only [nominal, entry, multiplier, factor,
        won_of_some payable entry, prize]
      push_cast
      rfl

theorem nominalTotal_eq
    {vBet : List CBet} (payable : ∀ bet ∈ vBet, Payable bet) (rt : RwdType) :
    nominalTotal vBet rt = tierTotal vBet rt := by
  induction vBet with
  | nil => rfl
  | cons bet rest inductionHypothesis =>
      have later :=
        inductionHypothesis fun other member =>
          payable other (List.mem_cons_of_mem bet member)
      have first := nominal_eq_prize (payable bet List.mem_cons_self) rt
      simp only [nominalTotal, tierTotal, List.map_cons, List.sum_cons]
        at later ⊢
      rw [first, later]
      push_cast
      rfl

theorem demands_eq
    {vBet : List CBet} (payable : ∀ bet ∈ vBet, Payable bet) :
    demands vBet = tierTotal vBet := by
  funext rt
  rw [demands, nominalTotal_eq payable, Int.toNat_natCast]

theorem tierTotal_append (before rest : List CBet) (rt : RwdType) :
    tierTotal (before ++ rest) rt =
      tierTotal before rt + tierTotal rest rt := by
  simp [tierTotal]

/-- Prizes that fit also fit for the first bets. -/
theorem prizesFit_left
    {before rest : List CBet} (fits : PrizesFit (before ++ rest)) :
    PrizesFit before := by
  intro rt
  have all := fits rt
  rw [tierTotal_append, List.length_append, Nat.mul_add] at all
  omega

theorem staysInRange_of_fits
    {lotto : CLotto} (payable : ∀ bet ∈ lotto.vBet, Payable bet)
    (fits : PrizesFit lotto.vBet)
    (nonneg : 0 ≤ lotto.rewardPool.toInt)
    (small : lotto.rewardPool.toInt < 2 ^ 53) :
    StaysInRange lotto := by
  constructor
  · intro bet member rt
    have all := fits rt
    have single :=
      List.single_le_sum (fun amount _ => Nat.zero_le amount)
        (prize bet rt)
        (List.mem_map_of_mem (f := fun other => prize other rt) member)
    rw [tierTotal] at all
    rw [InRange, nominal_eq_prize (payable bet member)]
    omega
  · intro before rest split rt
    have firstPayable : ∀ bet ∈ before, Payable bet := by
      intro bet member
      exact payable bet (split ▸ List.mem_append_left rest member)
    have firstFits : PrizesFit before := prizesFit_left (split ▸ fits)
    rcases rewardTotal_ok firstPayable firstFits rt with
      ⟨total, slack, found, close⟩
    have bound := firstFits rt
    rw [nominalTotal_eq firstPayable]
    refine ⟨⟨by omega, by omega⟩, total, found, close.nonneg, ?_⟩
    intro below
    exact close.small (by omega)
  · intro before rest split
    have available := available_eq nonneg small
    have nodup : (before ++ rest).Nodup := by
      rw [← split]
      decide
    rcases statisticsLoop_reaches payable fits nodup
        (lotto.rewardPool * 8 / 10) (fun _ _ => none) (by omega) (by omega)
        (by simp) with ⟨left, next, after, reached, value, -⟩
    have bounds :=
      @leftAfter_bounds _ tierCap (tierTotal lotto.vBet) tierCap_lawful before
        (lotto.rewardPool.toInt * 8 / 10) (by omega)
    rw [available] at value
    refine ⟨left, next, after, ?_, ?_, by omega, by omega⟩
    · rw [CLotto.createStatisticsRewardMap, split, reached]
    · rw [demands_eq payable, value]

/-! ## Sound bets -/

/-- The stakes of the bets together. -/
def totalStake (vBet : List CTxOut) : Int :=
  (vBet.map fun txout => txout.nValue.toInt).sum

theorem nValue_of_ofBetData
    {data : List UInt8} {nValue : Int64} {bet : CBet}
    (parsed : CBet.ofBetData data nValue = .ok bet) :
    bet.nValue = nValue := by
  simp only [CBet.ofBetData, bind_eq_ok] at parsed
  rcases parsed with ⟨type, -, address, -, vch, -, built⟩
  cases built
  rfl

theorem nValue_of_betOf
    {txout : CTxOut} {bet : CBet} (parsed : betOf txout = some bet) :
    bet.nValue = txout.nValue := by
  rcases betOf_eq_some.mp parsed with ⟨data, -, built⟩
  exact nValue_of_ofBetData built

theorem stake_pos_of_sound
    {txout : CTxOut} (sound : OwnsSoundBet txout) :
    0 ≤ txout.nValue.toInt := by
  rcases sound with ⟨bet, parsed, valid, fewReds⟩
  have covered := minBet_lt_nValue (wellFormed_of_isValid valid) fewReds
  rw [nValue_of_betOf parsed] at covered
  omega

/-- The stakes bound what a bet can win by itself. -/
theorem wonFits_of_totalStake
    {stars : BetType → List UInt8} {vBet : List CTxOut}
    (sound : ∀ txout ∈ vBet, OwnsSoundBet txout)
    (stake : totalStake vBet ≤ MAX_MONEY.toInt) :
    ∀ txout ∈ vBet, WonFits stars txout := by
  intro txout member bet parsed rt
  have maximum : MAX_MONEY.toInt = 5200000000000000 := by decide
  have single : txout.nValue.toInt ≤ totalStake vBet := by
    apply List.single_le_sum
    · intro value inValues
      rcases List.mem_map.mp inValues with ⟨other, inBets, rfl⟩
      exact stake_pos_of_sound (sound other inBets)
    · exact List.mem_map_of_mem (f := fun other => other.nValue.toInt) member
  rcases sound txout member with ⟨own, ownParsed, valid, fewReds⟩
  rw [parsed] at ownParsed
  cases ownParsed
  have bound :=
    @wonValue_le stars bet (wellFormed_of_isValid valid) fewReds rt
  rw [nValue_of_betOf parsed] at bound
  omega

/-- The values that a draw by `countingEnv` from the largest pool pays. -/
def countedValues (vBet : List CTxOut) : Except Fault (List Int64) := do
  let lotto ← CLotto.ofHash countingEnv 255 MAX_MONEY vBet
  let paid ← CLotto.getReWardOutput lotto
  pure (paid.1.map CTxOut.nValue)

theorem not_solvent_of_countedValues
    {vBet : List CTxOut} {value : Int64}
    (counted : countedValues vBet = .ok [value])
    (negative : value.toInt < 0) :
    ∀ lotto, CLotto.ofHash countingEnv 255 MAX_MONEY vBet = .ok lotto →
      ¬ Solvent lotto := by
  intro lotto built solvent
  rcases solvent.pays with ⟨vOuts, llRemains, paid, nonneg, -⟩
  simp only [countedValues, built, paid, bind, Except.bind, pure,
    Except.pure, Except.ok.injEq] at counted
  rcases vOuts with _ | ⟨txout, rest⟩
  · simp at counted
  · rw [List.map_cons, List.cons.injEq] at counted
    have first := nonneg txout List.mem_cons_self
    rw [counted.1] at first
    omega

end DSValue.Consensus.Solvency

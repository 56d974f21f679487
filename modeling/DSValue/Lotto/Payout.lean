import DSValue.Lib.Budget
import DSValue.Lotto.Tickets
import Mathlib.Algebra.BigOperators.Group.List.Basic
import Mathlib.Algebra.Order.BigOperators.Group.List

/-!
# Dividing the pool

The five tiers are served in order from four fifths of the pool: each but the
last may use four fifths of what is left.  A tier whose prizes fit is paid in
full and what it leaves goes to the next one.  A tier whose prizes do not fit
is divided in an order of integer divisions whose result is zero.

`getReWardOutput_ok` states this for the machine, as long as the prizes of a
tier, with `roundingSlack` for each bet, stay below `2 ^ 63`.
-/

namespace DSValue.Lotto.Payout

open DSValue.Lib
open DSValue.Lib.Budget
open DSValue.Core.Transaction
open DSValue.Lotto.Bet
open DSValue.Lotto.Draw
open DSValue.Lotto.Tickets

/-! ## Prizes of a bet and of a tier -/

/-- The value of the winning tickets of a bet in a tier. -/
def won (bet : CBet) (rt : RwdType) : Nat :=
  match bet.rewardmap rt with
  | none => 0
  | some second => second.toInt.toNat

/-- The prize of a bet in a tier when the tier is paid in full. -/
def prize (bet : CBet) (rt : RwdType) : Nat :=
  multiple bet.type rt * won bet rt

/-- The prizes of all bets in a tier. -/
def tierTotal (vBet : List CBet) (rt : RwdType) : Nat :=
  (vBet.map (fun bet => prize bet rt)).sum

/-- What rounding in double precision may add for each bet. -/
def roundingSlack : Nat := 8192

/-- The prizes of every tier stay below `2 ^ 63`. -/
def PrizesFit (vBet : List CBet) : Prop :=
  ∀ rt, tierTotal vBet rt + roundingSlack * vBet.length < 2 ^ 63

/-- A bet whose prize map holds what its tickets win. -/
structure Payable (bet : CBet) : Prop where
  positive :
    ∀ rt second, bet.rewardmap rt = some second → 0 < second.toInt
  tiers :
    ∀ rt second, bet.rewardmap rt = some second → 0 < multiple bet.type rt
  priced : ∃ total, bet.getTotalBer = .ok total ∧ 0 < total.toInt64

theorem getMulit_eq
    {type : BetType} {rt : RwdType} (paid : 0 < multiple type rt) :
    ∃ multi, getMulit type rt = .ok multi ∧
      multi.toInt = multiple type rt ∧ multiple type rt < 2 ^ 53 := by
  cases type <;> cases rt <;>
    first
    | exact ⟨_, rfl, by decide, by decide⟩
    | exact absurd paid (by decide)

theorem won_of_some
    {bet : CBet} {rt : RwdType} {second : Int64}
    (payable : Payable bet) (entry : bet.rewardmap rt = some second) :
    second.toInt = won bet rt := by
  have positive := payable.positive rt second entry
  simp only [won, entry]
  omega

/-! ## The total of a tier in double precision -/

/-- One turn of the sum that `rewardTotal` computes. -/
theorem rewardTotal_step
    {bet : CBet} {rt : RwdType} {total second multi : Int64} {exact slack : Nat}
    (approximates : Double.Approximates total.toInt exact slack)
    (value : second.toInt = won bet rt)
    (factor : multi.toInt = multiple bet.type rt)
    (paid : 0 < multiple bet.type rt)
    (factorSmall : multiple bet.type rt < 2 ^ 53)
    (fits : exact + slack + prize bet rt + roundingSlack < 2 ^ 63) :
    Double.Approximates
      (Double.toInt64
        (Double.add (Double.ofInt64 total)
          (Double.mul (Double.ofInt64 multi) (Double.ofInt64 second)))).toInt
      (exact + prize bet rt) (slack + roundingSlack) := by
  have factorExact : Double.ofInt64 multi = multiple bet.type rt := by
    rw [Double.ofInt64, factor, Double.round_natCast,
      Double.roundNat_of_lt factorSmall]
  rw [roundingSlack] at fits ⊢
  have product :
      Double.Approximates
        (Double.round (multiple bet.type rt * Double.round (won bet rt)))
        (prize bet rt) (1024 + 2048) := by
    apply Double.Approximates.round
    · apply Double.approximates_mul_round _ _ paid
      change prize bet rt < 2 ^ 63
      omega
    · omega
  have previous :
      Double.Approximates (Double.round total.toInt) exact (slack + 2048) :=
    approximates.round (by omega)
  have sum := (previous.add product).round (by
    simp only [← Nat.add_assoc]
    omega)
  have computed :
      Double.add (Double.ofInt64 total)
          (Double.mul (Double.ofInt64 multi) (Double.ofInt64 second)) =
        Double.round (Double.round total.toInt +
          Double.round
            (multiple bet.type rt * Double.round (won bet rt))) := by
    rw [Double.add, Double.mul, factorExact, Double.ofInt64, Double.ofInt64,
      value]
  have above := sum.above
  push_cast at above
  rw [computed, Double.toInt_toInt64 sum.nonneg (by omega)]
  refine ⟨sum.small, sum.large, ?_⟩
  push_cast
  omega

theorem rewardTotal_from
    {vBet : List CBet} {rt : RwdType}
    (payable : ∀ bet ∈ vBet, Payable bet)
    {total : Int64} {exact slack : Nat}
    (approximates : Double.Approximates total.toInt exact slack)
    (fits :
      exact + slack + tierTotal vBet rt + roundingSlack * vBet.length <
        2 ^ 63) :
    ∃ result,
      vBet.foldlM
          (fun total bet =>
            match bet.rewardmap rt with
            | none => (pure total : Except Fault Int64)
            | some second => do
                let multi ← getMulit bet.type rt
                pure (Double.toInt64
                  (Double.add (Double.ofInt64 total)
                    (Double.mul (Double.ofInt64 multi)
                      (Double.ofInt64 second)))))
          total = .ok result ∧
      ∃ used, Double.Approximates result.toInt
        (exact + tierTotal vBet rt) used ∧
          used ≤ slack + roundingSlack * vBet.length := by
  induction vBet generalizing total exact slack with
  | nil =>
      exact ⟨total, rfl, slack, by simpa [tierTotal] using approximates,
        by simp⟩
  | cons bet rest inductionHypothesis =>
      have restPayable :=
        fun other member => payable other (List.mem_cons_of_mem bet member)
      have betPayable := payable bet (by simp)
      have split :
          tierTotal (bet :: rest) rt = prize bet rt + tierTotal rest rt := by
        simp [tierTotal]
      rw [split, List.length_cons, Nat.mul_succ] at fits
      rw [List.foldlM_cons]
      cases entry : bet.rewardmap rt with
      | none =>
          have zero : prize bet rt = 0 := by
            simp [prize, won, entry]
          rcases inductionHypothesis restPayable approximates (by omega) with
            ⟨result, folded, used, close, bound⟩
          refine ⟨result, folded, used, ?_, ?_⟩
          · rw [split, zero, Nat.zero_add]
            exact close
          · rw [List.length_cons, Nat.mul_succ]
            omega
      | some second =>
          have paid := betPayable.tiers rt second entry
          rcases getMulit_eq paid with ⟨multi, found, factor, factorSmall⟩
          have step :=
            rewardTotal_step approximates (won_of_some betPayable entry)
              factor paid factorSmall (by omega)
          rcases inductionHypothesis restPayable step (by omega) with
            ⟨result, folded, used, close, bound⟩
          refine ⟨result, ?_, used, ?_, ?_⟩
          · rw [found]
            exact folded
          · rw [split, ← Nat.add_assoc]
            exact close
          · rw [List.length_cons, Nat.mul_succ]
            omega

/-- The total of a tier is exact as far as it can be paid at all. -/
theorem rewardTotal_ok
    {vBet : List CBet} (payable : ∀ bet ∈ vBet, Payable bet)
    (fits : PrizesFit vBet) (rt : RwdType) :
    ∃ total slack, rewardTotal vBet rt = .ok total ∧
      Double.Approximates total.toInt (tierTotal vBet rt) slack := by
  have bound := fits rt
  have start : Double.Approximates (0 : Int64).toInt 0 0 :=
    Double.Approximates.refl 0
  rcases rewardTotal_from payable start
    (show 0 + 0 + tierTotal vBet rt + roundingSlack * vBet.length < 2 ^ 63 by
      omega) with ⟨total, folded, slack, close, -⟩
  rw [Nat.zero_add] at close
  exact ⟨total, slack, folded, close⟩

/-! ## The share of an oversubscribed tier -/

theorem won_le_prize
    {bet : CBet} (payable : Payable bet) (rt : RwdType) :
    won bet rt ≤ prize bet rt := by
  cases entry : bet.rewardmap rt with
  | none => simp [won, entry]
  | some second =>
      exact Nat.le_mul_of_pos_left _ (payable.tiers rt second entry)

/-- The coins of a bet type in a tier are positive when there are any. -/
theorem betCoins_from
    {vBet : List CBet} (payable : ∀ bet ∈ vBet, Payable bet)
    (type : BetType) (rt : RwdType) (coins : Option Int64) (used : Nat)
    (start : ∀ value, coins = some value → 0 < value.toInt)
    (bounded : (coins.getD 0).toInt ≤ used)
    (fits : used + tierTotal vBet rt < 2 ^ 63) :
    let result :=
      vBet.foldl
        (fun coins bet =>
          if bet.type = type then
            match bet.rewardmap rt with
            | none => coins
            | some second => some (coins.getD 0 + second)
          else coins)
        coins
    (∀ value, result = some value → 0 < value.toInt) ∧
      ((coins.isSome = true ∨
        ∃ bet ∈ vBet, bet.type = type ∧ (bet.rewardmap rt).isSome = true) →
        result.isSome = true) := by
  induction vBet generalizing coins used with
  | nil => simpa using start
  | cons bet rest inductionHypothesis =>
      have restPayable :=
        fun other member => payable other (List.mem_cons_of_mem bet member)
      have betPayable := payable bet (by simp)
      have split :
          tierTotal (bet :: rest) rt = prize bet rt + tierTotal rest rt := by
        simp [tierTotal]
      have small := won_le_prize betPayable rt
      simp only [List.foldl_cons]
      by_cases same : bet.type = type
      · rw [if_pos same]
        cases entry : bet.rewardmap rt with
        | none =>
            rcases inductionHypothesis restPayable coins used start bounded
              (by omega) with ⟨positive, present⟩
            refine ⟨positive, ?_⟩
            rintro (already | ⟨other, member, otherType, entered⟩)
            · exact present (Or.inl already)
            · rcases List.mem_cons.mp member with rfl | later
              · rw [entry] at entered
                contradiction
              · exact present (Or.inr ⟨other, later, otherType, entered⟩)
        | some second =>
            have secondPositive := betPayable.positive rt second entry
            have secondValue := won_of_some betPayable entry
            have previous : 0 ≤ (coins.getD 0).toInt := by
              cases coins with
              | none => decide
              | some value => exact le_of_lt (start value rfl)
            have sum :
                (coins.getD 0 + second).toInt =
                  (coins.getD 0).toInt + second.toInt := by
              apply toInt_add_of_bounds
              · omega
              · omega
            rcases inductionHypothesis restPayable
              (some (coins.getD 0 + second)) (used + prize bet rt)
              (by
                intro value equal
                cases equal
                omega)
              (by
                rw [Option.getD_some, sum]
                push_cast
                omega)
              (by omega) with ⟨positive, present⟩
            exact ⟨positive, fun _ => present (Or.inl rfl)⟩
      · rw [if_neg same]
        rcases inductionHypothesis restPayable coins used start bounded
          (by omega) with ⟨positive, present⟩
        refine ⟨positive, ?_⟩
        rintro (already | ⟨other, member, otherType, entered⟩)
        · exact present (Or.inl already)
        · rcases List.mem_cons.mp member with rfl | later
          · exact absurd otherType same
          · exact present (Or.inr ⟨other, later, otherType, entered⟩)

theorem betCoins_positive
    {vBet : List CBet} (payable : ∀ bet ∈ vBet, Payable bet)
    (fits : PrizesFit vBet) (type : BetType) (rt : RwdType) :
    (∀ value, betCoins vBet type rt = some value → 0 < value.toInt) ∧
      ((∃ bet ∈ vBet, bet.type = type ∧ (bet.rewardmap rt).isSome = true) →
        (betCoins vBet type rt).isSome = true) := by
  have bound := fits rt
  rcases betCoins_from payable type rt none 0 (by simp) (by decide) (by omega)
    with ⟨positive, present⟩
  exact ⟨positive, fun winner => present (Or.inr winner)⟩

theorem rewardM_ok
    {vBet : List CBet} (payable : ∀ bet ∈ vBet, Payable bet)
    (type : BetType) (rt : RwdType) :
    ∃ first, rewardM vBet type rt = .ok first ∧
      ((∃ bet ∈ vBet, bet.type = type ∧ (bet.rewardmap rt).isSome = true) →
        first.isSome = true) := by
  induction vBet with
  | nil => exact ⟨none, rfl, by simp⟩
  | cons bet rest inductionHypothesis =>
      have betPayable := payable bet (by simp)
      rcases inductionHypothesis
        (fun other member => payable other (List.mem_cons_of_mem bet member))
        with ⟨first, found, present⟩
      cases entry : bet.rewardmap rt with
      | none =>
          refine ⟨first, by simp only [rewardM, entry, found], ?_⟩
          rintro ⟨other, member, otherType, entered⟩
          rcases List.mem_cons.mp member with rfl | later
          · rw [entry] at entered
            contradiction
          · exact present ⟨other, later, otherType, entered⟩
      | some second =>
          by_cases same : bet.type = type
          · rcases getMulit_eq (betPayable.tiers rt second entry) with
              ⟨multi, multiplier, -⟩
            refine ⟨some (Double.toInt64
              (Double.mul (Double.ofInt64 second) (Double.ofInt64 multi))),
              ?_, fun _ => rfl⟩
            simp only [rewardM, entry, if_pos same, multiplier]
            rfl
          · refine ⟨first, by simp only [rewardM, entry, if_neg same, found],
              ?_⟩
            rintro ⟨other, member, otherType, entered⟩
            rcases List.mem_cons.mp member with rfl | later
            · exact absurd otherType same
            · exact present ⟨other, later, otherType, entered⟩

/--
An oversubscribed tier pays nothing: the share of each coin is divided by the
total, which is larger.
-/
theorem schemeEntry_ok
    {vBet : List CBet} (payable : ∀ bet ∈ vBet, Payable bet)
    (fits : PrizesFit vBet) {maxreward total : Int64} (rt : RwdType)
    (type : BetType)
    (nonneg : 0 ≤ maxreward.toInt)
    (exceeds : maxreward.toInt < total.toInt) :
    ∃ entry, schemeEntry vBet maxreward total rt type = .ok entry ∧
      (∀ value, entry = some value → value = 0) ∧
      ((∃ bet ∈ vBet, bet.type = type ∧ (bet.rewardmap rt).isSome = true) →
        entry.isSome = true) := by
  rcases betCoins_positive payable fits type rt with ⟨positive, present⟩
  rcases rewardM_ok payable type rt with ⟨first, found, firstPresent⟩
  cases coinsEntry : betCoins vBet type rt with
  | none =>
      refine ⟨none, by simp [schemeEntry, coinsEntry, found, bind, Except.bind,
        pure, Except.pure], by simp, ?_⟩
      intro winner
      have contradictory := present winner
      rw [coinsEntry] at contradictory
      exact contradictory
  | some coins =>
      cases first with
      | none =>
          exact ⟨none, by simp [schemeEntry, coinsEntry, found, bind,
            Except.bind, pure, Except.pure], by simp, firstPresent⟩
      | some firstPrize =>
          have coinsPositive := positive coins coinsEntry
          have share : (maxreward / coins).toInt = maxreward.toInt / coins.toInt :=
            toInt_div_of_nonneg nonneg coinsPositive
          have shareNonneg : 0 ≤ (maxreward / coins).toInt := by
            rw [share]
            exact Int.ediv_nonneg nonneg (le_of_lt coinsPositive)
          have shareSmall : (maxreward / coins).toInt < total.toInt := by
            rw [share]
            exact lt_of_le_of_lt (Int.ediv_le_self _ nonneg) exceeds
          have perPrize : maxreward / coins / total = 0 := by
            rw [← Int64.toInt_inj,
              toInt_div_of_nonneg shareNonneg (by omega),
              Int.ediv_eq_zero_of_lt shareNonneg shareSmall]
            rfl
          have coinsDivide : divide maxreward coins = .ok (maxreward / coins) :=
            divide_of_pos (Int64.lt_iff_toInt_lt.mpr coinsPositive)
          have totalDivide :
              divide (maxreward / coins) total = .ok 0 := by
            rw [← perPrize]
            apply divide_of_pos
            rw [Int64.lt_iff_toInt_lt]
            exact lt_of_le_of_lt shareNonneg shareSmall
          refine ⟨some 0, ?_, by simp, fun _ => rfl⟩
          simp [schemeEntry, coinsEntry, found, coinsDivide, totalDivide, bind,
            Except.bind, pure, Except.pure]

/-! ## The scheme -/

/-- The sum of an amount over the paid tiers of a list. -/
def paidSum (paid : RwdType → Bool) (amount : RwdType → Nat)
    (tiers : List RwdType) : Nat :=
  (tiers.map (fun rt => if paid rt then amount rt else 0)).sum

/--
How a scheme treats a tier: a paid tier has no entry, so that the multiples
apply, and in an unpaid one every winner finds a zero.
-/
structure Serves (vBet : List CBet) (scheme : RewardScheme) (paid : Bool)
    (rt : RwdType) : Prop where
  full : paid = true → ∀ type, scheme type rt = none
  nothing :
    paid = false → ∀ bet ∈ vBet, (bet.rewardmap rt).isSome = true →
      scheme bet.type rt = some 0

/-- What a tier may use of the available reward. -/
def tierCap (rt : RwdType) (available : Int) : Int :=
  if rt = .top5 then available else available * 8 / 10

theorem tierCap_lawful : Lawful tierCap := by
  intro rt available nonneg
  rw [tierCap]
  split_ifs
  · omega
  · omega

theorem maxreward_eq
    {availablereward : Int64} (rt : RwdType)
    (nonneg : 0 ≤ availablereward.toInt)
    (small : availablereward.toInt < 2 ^ 53) :
    (if rt = .top5 then availablereward
      else availablereward * 8 / 10).toInt =
        tierCap rt availablereward.toInt := by
  rw [tierCap]
  split_ifs
  · rfl
  · have eight : (8 : Int64).toInt = 8 := by decide
    have ten : (10 : Int64).toInt = 10 := by decide
    have product :
        (availablereward * 8).toInt = availablereward.toInt * 8 := by
      rw [toInt_mul_of_bounds, eight]
      · rw [eight]
        omega
      · rw [eight]
        omega
    rw [toInt_div_of_nonneg (by omega) (by omega), product, ten]

/-- What the loop over some tiers achieves with an available reward. -/
structure Settlement (vBet : List CBet) (tiers : List RwdType)
    (available : Int) (before after : RewardScheme)
    (paid : RwdType → Bool) : Prop where
  unchanged : ∀ rt ∉ tiers, ∀ type, after type rt = before type rt
  serves : ∀ rt ∈ tiers, Serves vBet after (paid rt) rt
  bound : (paidSum paid (tierTotal vBet) tiers : Int) ≤ available

theorem Settlement.cons
    {vBet : List CBet} {rt : RwdType} {rest : List RwdType}
    {available left : Int} {before between after : RewardScheme}
    {paid : RwdType → Bool}
    (settlement : Settlement vBet rest left between after paid)
    (absent : rt ∉ rest) (value : Bool)
    (others : ∀ other ≠ rt, ∀ type, between type other = before type other)
    (served : Serves vBet between value rt)
    (used : left + (if value then tierTotal vBet rt else 0 : Nat) ≤ available) :
    Settlement vBet (rt :: rest) available before after
      (Function.update paid rt value) := by
  have away : ∀ other ∈ rest, other ≠ rt := by
    rintro other member rfl
    exact absent member
  constructor
  · intro other notMember type
    rw [List.mem_cons, not_or] at notMember
    rw [settlement.unchanged other notMember.2, others other notMember.1]
  · intro other member
    rcases List.mem_cons.mp member with rfl | later
    · rw [Function.update_self]
      constructor
      · intro full type
        rw [settlement.unchanged other absent]
        exact served.full full type
      · intro nothing bet member winner
        rw [settlement.unchanged other absent]
        exact served.nothing nothing bet member winner
    · rw [Function.update_of_ne (away other later)]
      exact settlement.serves other later
  · have bound := settlement.bound
    have rest_same :
        rest.map (fun other =>
            if Function.update paid rt value other then
              tierTotal vBet other else 0) =
          rest.map (fun other =>
            if paid other then tierTotal vBet other else 0) := by
      apply List.map_congr_left
      intro other member
      rw [Function.update_of_ne (away other member)]
    rw [paidSum] at bound ⊢
    rw [List.map_cons, List.sum_cons, rest_same, Function.update_self]
    push_cast at bound used ⊢
    omega

/-- The machine compares the totals as exact ones. -/
theorem over_iff
    {total maxreward : Int64} {exact slack : Nat}
    (close : Double.Approximates total.toInt exact slack)
    (small : maxreward.toInt < 2 ^ 53) :
    maxreward < total ↔ maxreward.toInt < exact := by
  rw [Int64.lt_iff_toInt_lt]
  by_cases below : exact < 2 ^ 53
  · rw [close.small below]
  · have atLeast := close.large (by omega)
    constructor
    · intro _
      omega
    · intro _
      omega

/-- The variable `availablereward` after one turn of the loop. -/
def nextAvailable
    (rt : RwdType) (availablereward total : Int64) : Int64 :=
  let maxreward :=
    if rt = .top5 then availablereward else availablereward * 8 / 10
  if maxreward < total then availablereward - maxreward
  else availablereward - maxreward + (maxreward - total)

/-- The variable `availablereward` after some turns of the loop. -/
def availableAfter
    (vBet : List CBet) (tiers : List RwdType) (availablereward : Int64) :
    Except Fault Int64 :=
  tiers.foldlM
    (fun availablereward rt => do
      let total ← rewardTotal vBet rt
      pure (nextAvailable rt availablereward total))
    availablereward

theorem nextAvailable_eq
    {rt : RwdType} {availablereward total : Int64} {demand : RwdType → Nat}
    {slack : Nat}
    (close : Double.Approximates total.toInt (demand rt) slack)
    (nonneg : 0 ≤ availablereward.toInt)
    (small : availablereward.toInt < 2 ^ 53) :
    (nextAvailable rt availablereward total).toInt =
      leftOver tierCap demand availablereward.toInt rt := by
  have maxValue := maxreward_eq rt nonneg small
  have capBounds := tierCap_lawful rt availablereward.toInt nonneg
  rw [nextAvailable, leftOver]
  generalize
    (if rt = RwdType.top5 then availablereward
      else availablereward * 8 / 10) = maxreward at maxValue ⊢
  rw [← maxValue] at capBounds ⊢
  have reserved :
      (availablereward - maxreward).toInt =
        availablereward.toInt - maxreward.toInt :=
    toInt_sub_of_bounds (by omega) (by omega)
  have exactly := over_iff close (show maxreward.toInt < 2 ^ 53 by omega)
  by_cases exceeds : maxreward < total
  · rw [if_pos exceeds, if_pos (exactly.mp exceeds), reserved]
  · have within : ¬ maxreward.toInt < demand rt :=
      fun excess => exceeds (exactly.mpr excess)
    have exactTotal : total.toInt = demand rt := close.small (by omega)
    have unused :
        (maxreward - total).toInt = maxreward.toInt - total.toInt :=
      toInt_sub_of_bounds (by omega) (by omega)
    rw [if_neg exceeds, if_neg within,
      toInt_add_of_bounds (by omega) (by omega), reserved, unused]
    omega

/-- One turn of the loop over the tiers. -/
theorem statisticsLoop_step
    {vBet : List CBet} (payable : ∀ bet ∈ vBet, Payable bet)
    (fits : PrizesFit vBet) (rt : RwdType) (rest : List RwdType)
    {availablereward : Int64} (scheme : RewardScheme)
    (nonneg : 0 ≤ availablereward.toInt)
    (small : availablereward.toInt < 2 ^ 53)
    (fresh : ∀ type, scheme type rt = none) :
    ∃ total next,
      rewardTotal vBet rt = .ok total ∧
      statisticsLoop vBet (rt :: rest) availablereward scheme =
        statisticsLoop vBet rest (nextAvailable rt availablereward total)
          next ∧
      (nextAvailable rt availablereward total).toInt =
        leftOver tierCap (tierTotal vBet) availablereward.toInt rt ∧
      (∀ other ≠ rt, ∀ type, next type other = scheme type other) ∧
      Serves vBet next
        (decide (¬ tierCap rt availablereward.toInt < tierTotal vBet rt))
        rt := by
  rcases rewardTotal_ok payable fits rt with ⟨total, slack, totalFound, close⟩
  have maxValue := maxreward_eq rt nonneg small
  have capBounds := tierCap_lawful rt availablereward.toInt nonneg
  have left := nextAvailable_eq close nonneg small
  refine ⟨total, ?_⟩
  rw [statisticsLoop]
  simp only [totalFound, bind, Except.bind]
  rw [nextAvailable] at left ⊢
  generalize
    (if rt = RwdType.top5 then availablereward
      else availablereward * 8 / 10) = maxreward at maxValue left ⊢
  rw [← maxValue] at capBounds ⊢
  have exactly := over_iff close (show maxreward.toInt < 2 ^ 53 by omega)
  by_cases excess : maxreward < total
  · have exceeds := exactly.mp excess
    simp only [if_pos excess] at left ⊢
    rw [Int64.lt_iff_toInt_lt] at excess
    rcases schemeEntry_ok payable fits rt .type15_6 capBounds.1 excess with
      ⟨six, sixFound, sixZero, sixPresent⟩
    rcases schemeEntry_ok payable fits rt .typeMulilt capBounds.1 excess
      with ⟨double, doubleFound, doubleZero, doublePresent⟩
    simp only [sixFound, doubleFound]
    refine ⟨_, trivial, rfl, left, ?_, ?_⟩
    · intro other away type
      rw [RewardScheme.update, if_neg away]
    · refine ⟨by simp [exceeds], fun _ bet member winner => ?_⟩
      rw [RewardScheme.update, if_pos rfl]
      cases type : bet.type with
      | type15_6 =>
          have present := sixPresent ⟨bet, member, type, winner⟩
          rcases Option.isSome_iff_exists.mp present with ⟨value, equal⟩
          rw [equal, sixZero value equal]
      | typeMulilt =>
          have present := doublePresent ⟨bet, member, type, winner⟩
          rcases Option.isSome_iff_exists.mp present with ⟨value, equal⟩
          rw [equal, doubleZero value equal]
  · have within : ¬ maxreward.toInt < tierTotal vBet rt :=
      fun exceeds => excess (exactly.mpr exceeds)
    simp only [if_neg excess] at left ⊢
    exact ⟨scheme, trivial, rfl, left, fun other _ type => rfl,
      fun _ type => fresh type, by simp [within]⟩

/-- The loop has reached the tiers behind some of them. -/
theorem statisticsLoop_reaches
    {vBet : List CBet} (payable : ∀ bet ∈ vBet, Payable bet)
    (fits : PrizesFit vBet) {before rest : List RwdType}
    (nodup : (before ++ rest).Nodup)
    (availablereward : Int64) (scheme : RewardScheme)
    (nonneg : 0 ≤ availablereward.toInt)
    (small : availablereward.toInt < 2 ^ 53)
    (fresh : ∀ rt ∈ before ++ rest, ∀ type, scheme type rt = none) :
    ∃ left next,
      availableAfter vBet before availablereward = .ok left ∧
      statisticsLoop vBet (before ++ rest) availablereward scheme =
        statisticsLoop vBet rest left next ∧
      left.toInt =
        leftAfter tierCap (tierTotal vBet) before availablereward.toInt ∧
      ∀ rt ∈ rest, ∀ type, next type rt = none := by
  induction before generalizing availablereward scheme with
  | nil => exact ⟨availablereward, scheme, rfl, rfl, rfl, fresh⟩
  | cons rt others inductionHypothesis =>
      rw [List.cons_append] at nodup fresh ⊢
      rcases List.nodup_cons.mp nodup with ⟨absent, restNodup⟩
      rcases statisticsLoop_step payable fits rt (others ++ rest) scheme nonneg
          small (fresh rt List.mem_cons_self) with
        ⟨total, next, totalFound, stepped, leftValue, unchanged, -⟩
      have bounds :=
        @leftOver_bounds _ tierCap (tierTotal vBet) tierCap_lawful rt _ nonneg
      rcases inductionHypothesis restNodup
          (nextAvailable rt availablereward total) next (by omega) (by omega)
          (by
            intro other member type
            have away : other ≠ rt := by
              rintro rfl
              exact absent member
            rw [unchanged other away]
            exact fresh other (List.mem_cons_of_mem rt member) type) with
        ⟨last, final, after, reached, lastValue, stillFresh⟩
      refine ⟨last, final, ?_, stepped.trans reached, ?_, stillFresh⟩
      · rw [availableAfter, List.foldlM_cons, totalFound]
        exact after
      · rw [lastValue, leftValue, leftAfter_cons]

/-- The loop serves the tiers in order from the available reward. -/
theorem statisticsLoop_served
    {vBet : List CBet} (payable : ∀ bet ∈ vBet, Payable bet)
    (fits : PrizesFit vBet) {tiers : List RwdType} (nodup : tiers.Nodup)
    (availablereward : Int64) (scheme : RewardScheme)
    (nonneg : 0 ≤ availablereward.toInt)
    (small : availablereward.toInt < 2 ^ 53)
    (fresh : ∀ rt ∈ tiers, ∀ type, scheme type rt = none) :
    ∃ result,
      statisticsLoop vBet tiers availablereward scheme = .ok result ∧
      Settlement vBet tiers availablereward.toInt scheme result
        (served tierCap (tierTotal vBet) tiers availablereward.toInt) := by
  induction tiers generalizing availablereward scheme with
  | nil =>
      refine ⟨scheme, rfl, ?_⟩
      exact ⟨by simp, by simp, by simpa [paidSum] using nonneg⟩
  | cons rt rest inductionHypothesis =>
      rcases List.nodup_cons.mp nodup with ⟨absent, restNodup⟩
      rcases statisticsLoop_step payable fits rt rest scheme nonneg small
          (fresh rt List.mem_cons_self) with
        ⟨total, next, -, stepped, leftValue, unchanged, serves⟩
      have bounds :=
        @leftOver_bounds _ tierCap (tierTotal vBet) tierCap_lawful rt _ nonneg
      rcases inductionHypothesis restNodup
          (nextAvailable rt availablereward total) next (by omega) (by omega)
          (by
            intro other member type
            have away : other ≠ rt := by
              rintro rfl
              exact absent member
            rw [unchanged other away]
            exact fresh other (List.mem_cons_of_mem rt member) type) with
        ⟨result, found, settlement⟩
      refine ⟨result, stepped.trans found, ?_⟩
      rw [served, ← leftValue]
      refine settlement.cons absent _ unchanged serves ?_
      have capBounds := tierCap_lawful rt availablereward.toInt nonneg
      rw [leftValue, leftOver]
      split_ifs with exceeds full full
      · exact absurd exceeds (by simpa using full)
      · push_cast
        omega
      · omega
      · exact absurd exceeds (by simpa using full)

/-! ## The outputs -/

/-- What a bet is paid. -/
def payout (paid : RwdType → Bool) (bet : CBet) : Nat :=
  paidSum paid (prize bet) RwdType.all

theorem payPrizes_ok
    {vBet : List CBet} {scheme : RewardScheme} {paid : RwdType → Bool}
    {bet : CBet} (member : bet ∈ vBet) (payable : Payable bet)
    {tiers : List RwdType}
    (serves : ∀ rt ∈ tiers, Serves vBet scheme (paid rt) rt)
    (nValue : Int64)
    (nonneg : 0 ≤ nValue.toInt)
    (fits : nValue.toInt + paidSum paid (prize bet) tiers < 2 ^ 63) :
    ∃ result, payPrizes scheme bet tiers nValue = .ok result ∧
      result.toInt = nValue.toInt + paidSum paid (prize bet) tiers := by
  induction tiers generalizing nValue with
  | nil => exact ⟨nValue, rfl, by simp [paidSum]⟩
  | cons rt rest inductionHypothesis =>
      have restServes :=
        fun other later => serves other (List.mem_cons_of_mem rt later)
      have served := serves rt (by simp)
      have split :
          paidSum paid (prize bet) (rt :: rest) =
            (if paid rt then prize bet rt else 0) +
              paidSum paid (prize bet) rest := by
        simp [paidSum]
      rw [split] at fits ⊢
      push_cast at fits ⊢
      rw [payPrizes]
      cases entry : bet.rewardmap rt with
      | none =>
          have zero : prize bet rt = 0 := by simp [prize, won, entry]
          rw [zero] at fits ⊢
          rcases inductionHypothesis restServes nValue nonneg
            (by split_ifs at fits <;> omega) with ⟨result, found, value⟩
          exact ⟨result, found, by split_ifs <;> omega⟩
      | some second =>
          by_cases full : paid rt
          · rw [if_pos full] at fits ⊢
            rcases getMulit_eq (payable.tiers rt second entry) with
              ⟨multi, multiplier, factor, -⟩
            have product : multi.toInt * second.toInt = prize bet rt := by
              rw [factor, won_of_some payable entry, prize]
              push_cast
              rfl
            have amount : (multi * second).toInt = prize bet rt := by
              rw [toInt_mul_of_bounds (by omega) (by omega), product]
            have sum :
                (nValue + multi * second).toInt =
                  nValue.toInt + prize bet rt := by
              rw [toInt_add_of_bounds (by omega) (by omega), amount]
            rcases inductionHypothesis restServes (nValue + multi * second)
              (by omega) (by omega) with ⟨result, found, value⟩
            refine ⟨result, ?_, by omega⟩
            simp only [served.full full, multiplier]
            exact found
          · rw [if_neg full] at fits ⊢
            have nothing :=
              served.nothing (by simpa using full) bet member
                (by rw [entry]; rfl)
            rcases inductionHypothesis restServes (nValue + 0 * second)
              (by simpa using nonneg) (by simpa using fits) with
              ⟨result, found, value⟩
            refine ⟨result, ?_, by simpa using value⟩
            simp only [nothing]
            exact found

theorem payBet_eq
    {vBet : List CBet} {scheme : RewardScheme} {paid : RwdType → Bool}
    {bet : CBet} (member : bet ∈ vBet) (payable : Payable bet)
    (serves : ∀ rt ∈ RwdType.all, Serves vBet scheme (paid rt) rt)
    (fits : payout paid bet < 2 ^ 63) :
    payBet scheme bet =
      .ok ⟨Int64.ofNat (payout paid bet), setDestination bet.address⟩ := by
  rcases payable.priced with ⟨total, counted, positive⟩
  have start : (0 : Int64).toInt = 0 := by decide
  rcases payPrizes_ok member payable serves 0 (by decide)
    (by rw [start]; rw [payout] at fits; omega) with ⟨value, paidOut, amount⟩
  have exactly : value = Int64.ofNat (payout paid bet) := by
    rw [← Int64.toInt_inj, amount, start, Int.zero_add,
      Int64.toInt_ofNat_of_lt fits, payout]
  simp only [payBet, counted, divide_of_pos positive, paidOut, exactly, bind,
    Except.bind, pure, Except.pure]

/-- The sum of the values of outputs, as integers. -/
def totalValue (vOuts : List CTxOut) : Int :=
  (vOuts.map (fun txout => txout.nValue.toInt)).sum

theorem payout_of_not_isWinning
    {bet : CBet} (paid : RwdType → Bool)
    (losing : CBet.isWinning bet = false) :
    payout paid bet = 0 := by
  have absent : ∀ rt ∈ RwdType.all, prize bet rt = 0 := by
    intro rt member
    have empty := List.any_eq_false.mp losing rt member
    rw [Bool.not_eq_true, Option.isSome_eq_false_iff,
      Option.isNone_iff_eq_none] at empty
    rw [prize, won, empty, Nat.mul_zero]
  rw [payout, paidSum, List.sum_eq_zero]
  intro amount member
  rcases List.mem_map.mp member with ⟨rt, inTiers, rfl⟩
  rw [absent rt inTiers, ite_self]

/-- The output of a bet, if it wins. -/
def award (paid : RwdType → Bool) (bet : CBet) : Option CTxOut :=
  if CBet.isWinning bet then
    some ⟨Int64.ofNat (payout paid bet), setDestination bet.address⟩
  else none

theorem payLoop_eq
    {vBet : List CBet} {scheme : RewardScheme} {paid : RwdType → Bool}
    (serves : ∀ rt ∈ RwdType.all, Serves vBet scheme (paid rt) rt)
    {bets : List CBet} (members : ∀ bet ∈ bets, bet ∈ vBet ∧ Payable bet)
    (fits : ∀ bet ∈ bets, payout paid bet < 2 ^ 63)
    (vOuts : List CTxOut) (llRemains : Int64) :
    payLoop scheme bets vOuts llRemains =
      .ok (vOuts ++ bets.filterMap (award paid),
        llRemains + Int64.ofNat (bets.map (payout paid)).sum) := by
  induction bets generalizing vOuts llRemains with
  | nil =>
      simp [payLoop, pure, Except.pure]
  | cons bet rest inductionHypothesis =>
      have restMembers :=
        fun other later => members other (List.mem_cons_of_mem bet later)
      have restFits :=
        fun other later => fits other (List.mem_cons_of_mem bet later)
      rcases members bet List.mem_cons_self with ⟨member, payable⟩
      rw [payLoop, List.filterMap_cons, List.map_cons, List.sum_cons]
      by_cases winning : CBet.isWinning bet
      · simp only [if_pos winning, award,
          payBet_eq member payable serves (fits bet List.mem_cons_self), bind,
          Except.bind, inductionHypothesis restMembers restFits]
        rw [Int64.ofNat_add, Int64.add_assoc, List.append_assoc]
        rfl
      · have zero := payout_of_not_isWinning paid (by simpa using winning)
        simp only [if_neg winning, award,
          inductionHypothesis restMembers restFits, zero, Nat.zero_add]

theorem totalValue_award
    {paid : RwdType → Bool} {bets : List CBet}
    (fits : ∀ bet ∈ bets, payout paid bet < 2 ^ 63) :
    totalValue (bets.filterMap (award paid)) =
      (bets.map (payout paid)).sum := by
  induction bets with
  | nil => rfl
  | cons bet rest inductionHypothesis =>
      have later :=
        inductionHypothesis fun other member =>
          fits other (List.mem_cons_of_mem bet member)
      rw [totalValue] at later ⊢
      rw [List.filterMap_cons, List.map_cons, List.sum_cons, award]
      by_cases winning : CBet.isWinning bet
      · simp only [if_pos winning, List.map_cons, List.sum_cons, later,
          Int64.toInt_ofNat_of_lt (fits bet List.mem_cons_self)]
        push_cast
        rfl
      · have zero := payout_of_not_isWinning paid (by simpa using winning)
        simp only [if_neg winning, later, zero, Nat.zero_add]

/-- Summing over the bets first or over the tiers first. -/
theorem sum_payout_eq_paidSum
    (paid : RwdType → Bool) (vBet : List CBet) (tiers : List RwdType) :
    (vBet.map (fun bet => paidSum paid (prize bet) tiers)).sum =
      paidSum paid (tierTotal vBet) tiers := by
  induction tiers with
  | nil => simp [paidSum]
  | cons rt rest inductionHypothesis =>
      have head :
          ∀ amount : RwdType → Nat,
            paidSum paid amount (rt :: rest) =
              (if paid rt then amount rt else 0) +
                paidSum paid amount rest := by
        intro amount
        simp [paidSum]
      simp only [head, List.sum_map_add, inductionHypothesis]
      congr 1
      by_cases full : paid rt
      · simp [full, tierTotal]
      · simp [full]

theorem payout_lt_of_sum_lt
    {paid : RwdType → Bool} {vBet : List CBet}
    (bound : (vBet.map (payout paid)).sum < 2 ^ 63) :
    ∀ bet ∈ vBet, payout paid bet < 2 ^ 63 := by
  intro bet member
  have single :=
    List.single_le_sum (fun amount _ => Nat.zero_le amount)
      (payout paid bet) (List.mem_map_of_mem (f := payout paid) member)
  omega

/-- The tiers that a pool pays in full. -/
def paidTiers (vBet : List CBet) (rewardPool : Int64) : RwdType → Bool :=
  served tierCap (tierTotal vBet) RwdType.all (rewardPool.toInt * 8 / 10)

theorem available_eq
    {rewardPool : Int64} (nonneg : 0 ≤ rewardPool.toInt)
    (small : rewardPool.toInt < 2 ^ 53) :
    (rewardPool * 8 / 10).toInt = rewardPool.toInt * 8 / 10 := by
  have value := maxreward_eq .top1 nonneg small
  simpa [tierCap] using value

/--
The draw as a whole: which tiers are paid depends on the pool and the totals
of the tiers, and every bet is paid by itself.
-/
theorem getReWardOutput_eq
    {vBet : List CBet} (payable : ∀ bet ∈ vBet, Payable bet)
    (fits : PrizesFit vBet) {rewardPool : Int64}
    (nonneg : 0 ≤ rewardPool.toInt)
    (small : rewardPool.toInt < 2 ^ 53) :
    CLotto.getReWardOutput ⟨vBet, rewardPool⟩ =
      .ok (vBet.filterMap (award (paidTiers vBet rewardPool)),
        Int64.ofNat (vBet.map (payout (paidTiers vBet rewardPool))).sum) ∧
    ((vBet.map (payout (paidTiers vBet rewardPool))).sum : Int) ≤
      rewardPool.toInt * 8 / 10 := by
  have available := available_eq nonneg small
  rcases statisticsLoop_served payable fits (by decide : RwdType.all.Nodup)
    (rewardPool * 8 / 10) (fun _ _ => none) (by omega) (by omega) (by simp)
    with ⟨scheme, found, settlement⟩
  rw [available] at settlement
  have bound := settlement.bound
  rw [← sum_payout_eq_paidSum] at bound
  change ((vBet.map (payout (paidTiers vBet rewardPool))).sum : Int) ≤ _
    at bound
  have each := payout_lt_of_sum_lt
    (show (vBet.map (payout (paidTiers vBet rewardPool))).sum < 2 ^ 63 by
      omega)
  refine ⟨?_, bound⟩
  rw [CLotto.getReWardOutput, CLotto.createStatisticsRewardMap, found]
  have looped :=
    payLoop_eq settlement.serves
      (fun bet member => ⟨member, payable bet member⟩) each [] 0
  rw [List.nil_append, Int64.zero_add] at looped
  exact looped

/--
The draw finishes, no output is negative, the sum handed to the caller is the
sum of the outputs and it is at most four fifths of the pool.
-/
theorem getReWardOutput_ok
    {vBet : List CBet} (payable : ∀ bet ∈ vBet, Payable bet)
    (fits : PrizesFit vBet) {rewardPool : Int64}
    (nonneg : 0 ≤ rewardPool.toInt)
    (small : rewardPool.toInt < 2 ^ 53) :
    ∃ vOuts llRewards,
      CLotto.getReWardOutput ⟨vBet, rewardPool⟩ = .ok (vOuts, llRewards) ∧
      (∀ txout ∈ vOuts, 0 ≤ txout.nValue.toInt) ∧
      llRewards.toInt = totalValue vOuts ∧
      totalValue vOuts ≤ rewardPool.toInt * 8 / 10 := by
  rcases getReWardOutput_eq payable fits nonneg small with ⟨computed, bound⟩
  have each := payout_lt_of_sum_lt
    (show (vBet.map (payout (paidTiers vBet rewardPool))).sum < 2 ^ 63 by
      omega)
  have total := totalValue_award each
  refine ⟨_, _, computed, ?_, ?_, ?_⟩
  · intro txout member
    rcases List.mem_filterMap.mp member with ⟨bet, inBets, awarded⟩
    rw [award] at awarded
    split_ifs at awarded
    cases awarded
    simp only
    rw [Int64.toInt_ofNat_of_lt (each bet inBets)]
    omega
  · rw [total, Int64.toInt_ofNat_of_lt (by omega)]
  · rw [total]
    exact bound

end DSValue.Lotto.Payout

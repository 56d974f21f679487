import DSValue.Lotto.Draw
import Mathlib.Data.Nat.Choose.Vandermonde
import Mathlib.Data.List.Perm.Subperm

/-!
# Tickets

What a bet is for, without machine integers: a choice of numbers stands for
all tickets that can be made of it, each at the same price, and a prize tier
pays a multiple of the price for each ticket with its number of hits.

For a bet that `CLotto::IsValid` accepts, with at most twenty red numbers,
`initBet_ok` says that the machine computes exactly these numbers.  With
twenty-one red numbers the factorial overflows.
-/

namespace DSValue.Lotto.Tickets

open DSValue.Lib
open DSValue.Core.Transaction
open DSValue.Script.Scan
open DSValue.Lotto.Bet
open DSValue.Lotto.Draw

/-! ## Counting without overflow -/

/-- The tickets with `hits` lucky numbers among `size`. -/
def hitTickets (selected lucky size hits : Nat) : Nat :=
  lucky.choose hits * (selected - lucky).choose (size - hits)

/-- The winning tickets of a double selection in one tier. -/
def doubleWins (redSize redCount blueSize blueCount : Nat) :
    List (Nat × Nat) → Nat
  | [] => 0
  | hits :: rest =>
      hitTickets redSize redCount 5 hits.1 *
          hitTickets blueSize blueCount 2 hits.2 +
        doubleWins redSize redCount blueSize blueCount rest

theorem hitTickets_le
    {selected lucky size hits : Nat}
    (inside : lucky ≤ selected) (fits : hits ≤ size) :
    hitTickets selected lucky size hits ≤ selected.choose size := by
  have vandermonde :=
    Nat.add_choose_eq lucky (selected - lucky) size
  rw [Nat.add_sub_cancel' inside] at vandermonde
  rw [vandermonde, hitTickets]
  exact Finset.single_le_sum
    (f := fun split : Nat × Nat =>
      lucky.choose split.1 * (selected - lucky).choose split.2)
    (fun _ _ => Nat.zero_le _)
    (Finset.HasAntidiagonal.mem_antidiagonal.mpr
      (show (hits, size - hits).1 + (hits, size - hits).2 = size by
        simp [fits]))

theorem mselectN_eq_choose
    {m n : Nat} (few : m ≤ 20) (small : n ≤ 6) :
    mselectN (Int32.ofNat m) (Int32.ofNat n) =
      .ok (Int32.ofNat (m.choose n)) := by
  have table :
      ∀ m < 21, ∀ n < 7,
        mselectN (Int32.ofNat m) (Int32.ofNat n) =
          .ok (Int32.ofNat (m.choose n)) := by
    decide
  exact table m (by omega) n (by omega)

theorem ticketsWithHits_eq
    {selected lucky size hits : Nat}
    (few : lucky ≤ 20) (missesFew : selected - lucky ≤ 20)
    (sizeSmall : size ≤ 6) (fits : hits ≤ size) :
    ticketsWithHits selected lucky size hits =
      .ok (Int32.ofNat (hitTickets selected lucky size hits)) := by
  rw [ticketsWithHits, mselectN_eq_choose (by omega) (by omega),
    mselectN_eq_choose (by omega) (by omega), hitTickets, Int32.ofNat_mul]
  rfl

theorem doubleTicketSum_eq
    {redSize redCount blueSize blueCount : Nat}
    (redFew : redCount ≤ 20) (redMisses : redSize - redCount ≤ 20)
    (blueFew : blueCount ≤ 20) (blueMisses : blueSize - blueCount ≤ 20)
    {pairs : List (Nat × Nat)}
    (fit : ∀ hits ∈ pairs, hits.1 ≤ 5 ∧ hits.2 ≤ 2) :
    doubleTicketSum redSize redCount blueSize blueCount pairs =
      .ok (Int32.ofNat
        (doubleWins redSize redCount blueSize blueCount pairs)) := by
  induction pairs with
  | nil => rfl
  | cons hits rest inductionHypothesis =>
      have hitsFit := fit hits (by simp)
      rw [doubleTicketSum, doubleTickets,
        ticketsWithHits_eq redFew redMisses (by omega) hitsFit.1,
        ticketsWithHits_eq blueFew blueMisses (by omega) hitsFit.2,
        inductionHypothesis
          (fun other member => fit other (List.mem_cons_of_mem _ member)),
        doubleWins, Int32.ofNat_add, Int32.ofNat_mul]
      rfl

theorem mulityHits_fit (rt : RwdType) :
    ∀ hits ∈ mulityHits rt, hits.1 ≤ 5 ∧ hits.2 ≤ 2 := by
  cases rt <;> decide

theorem doubleWins_le
    {redSize redCount blueSize blueCount : Nat}
    (redInside : redCount ≤ redSize) (blueInside : blueCount ≤ blueSize)
    {pairs : List (Nat × Nat)}
    (fit : ∀ hits ∈ pairs, hits.1 ≤ 5 ∧ hits.2 ≤ 2) :
    doubleWins redSize redCount blueSize blueCount pairs ≤
      pairs.length * (redSize.choose 5 * blueSize.choose 2) := by
  induction pairs with
  | nil => simp [doubleWins]
  | cons hits rest inductionHypothesis =>
      have hitsFit := fit hits (by simp)
      have first :=
        Nat.mul_le_mul (hitTickets_le redInside hitsFit.1)
          (hitTickets_le blueInside hitsFit.2)
      have others :=
        inductionHypothesis
          (fun other member => fit other (List.mem_cons_of_mem _ member))
      rw [doubleWins, List.length_cons, Nat.succ_mul]
      omega

/-! ## Prizes -/

/-- The lucky red numbers of a draw. -/
def luckyReds (lucky : List UInt8) : List UInt8 :=
  sortBytes (redPart lucky)

/-- The lucky blue numbers of a draw. -/
def luckyBlues (lucky : List UInt8) : List UInt8 :=
  sortBytes ((bluePart lucky).getD [])

/-- The blue numbers of a selection. -/
def bluesOf (vch : List UInt8) : List UInt8 :=
  (bluePart vch).getD []

/-- How many tickets a selection stands for. -/
def ticketCount : BetType → List UInt8 → Nat
  | .type15_6, vch => vch.length.choose 6
  | .typeMulilt, vch =>
      (redPart vch).length.choose 5 * (bluesOf vch).length.choose 2

/-- How many tickets of a selection win in a tier. -/
def winningTickets (lucky vch : List UInt8) : BetType → RwdType → Nat
  | .type15_6, .top1 => hitTickets vch.length (luckyCount vch lucky) 6 6
  | .type15_6, .top2 => hitTickets vch.length (luckyCount vch lucky) 6 5
  | .type15_6, .top3 => hitTickets vch.length (luckyCount vch lucky) 6 4
  | .type15_6, _ => 0
  | .typeMulilt, .top1 =>
      if 5 ≤ luckyCount (redPart vch) (luckyReds lucky) ∧
          2 ≤ luckyCount (bluesOf vch) (luckyBlues lucky) then 1 else 0
  | .typeMulilt, rt =>
      doubleWins (redPart vch).length
        (luckyCount (redPart vch) (luckyReds lucky))
        (bluesOf vch).length
        (luckyCount (bluesOf vch) (luckyBlues lucky))
        (mulityHits rt)

/-- The multiple of the ticket price a tier pays. -/
def multiple : BetType → RwdType → Nat
  | .type15_6, .top1 => 3000
  | .type15_6, .top2 => 17
  | .type15_6, .top3 => 2
  | .type15_6, _ => 0
  | .typeMulilt, .top1 => 210000
  | .typeMulilt, .top2 => 1000
  | .typeMulilt, .top3 => 30
  | .typeMulilt, .top4 => 5
  | .typeMulilt, .top5 => 2

/-- The price of one ticket of a bet. -/
def ticketPrice (bet : CBet) : Nat :=
  bet.nValue.toInt.toNat / ticketCount bet.type bet.vch

/-- The value of the winning tickets of a bet in a tier. -/
def wonValue (stars : BetType → List UInt8) (bet : CBet) (rt : RwdType) : Nat :=
  winningTickets (stars bet.type) bet.vch bet.type rt * ticketPrice bet

/-! ## Accepted bets -/

theorem pairwise_lt_of_sorted
    {bytes : List UInt8}
    (sorted : bytes.Pairwise (fun left right => left ≤ right))
    (distinct : hasAdjacentEqual bytes = false) :
    bytes.Pairwise (fun left right => left < right) := by
  induction bytes with
  | nil => exact List.Pairwise.nil
  | cons first rest inductionHypothesis =>
      rcases List.pairwise_cons.mp sorted with ⟨least, restSorted⟩
      cases rest with
      | nil => simp
      | cons second others =>
          rw [hasAdjacentEqual, Bool.or_eq_false_iff] at distinct
          have increasing := inductionHypothesis restSorted distinct.2
          have different : first ≠ second := by
            simpa using distinct.1
          have below : first < second :=
            UInt8.lt_of_le_of_ne (least second (by simp)) different
          refine List.pairwise_cons.mpr ⟨?_, increasing⟩
          intro other member
          rcases List.mem_cons.mp member with rfl | later
          · exact below
          · exact UInt8.lt_trans below
              ((List.pairwise_cons.mp increasing).1 other later)

/-- Different numbers from `1` to `limit` are at most `limit` many. -/
theorem length_le_of_increasing
    {bytes : List UInt8} {limit : Nat}
    (increasing : bytes.Pairwise (fun left right => left < right))
    (inRange : ∀ no ∈ bytes, 1 ≤ no.toNat ∧ no.toNat ≤ limit) :
    bytes.length ≤ limit := by
  have nodup : (bytes.map UInt8.toNat).Nodup := by
    rw [List.nodup_iff_pairwise_ne, List.pairwise_map]
    exact increasing.imp
      (fun below => Nat.ne_of_lt (UInt8.lt_iff_toNat_lt.mp below))
  have inside : bytes.map UInt8.toNat ⊆ List.range' 1 limit := by
    intro no member
    rcases List.mem_map.mp member with ⟨byte, inBytes, rfl⟩
    have bounds := inRange byte inBytes
    rw [List.mem_range'_1]
    omega
  have shorter := (nodup.subperm inside).length_le
  simpa using shorter

theorem bluePart_cons_of_ne
    {byte : UInt8} (rest : List UInt8) (differs : byte ≠ gSplitFlag) :
    bluePart (byte :: rest) = bluePart rest := by
  rw [bluePart, bluePart,
    List.dropWhile_cons_of_pos (by simpa using differs)]

theorem bluePart_of_flag
    {front blue : List UInt8} (red : ∀ byte ∈ front, byte ≠ gSplitFlag) :
    bluePart (front ++ gSplitFlag :: blue) = some blue := by
  induction front with
  | nil => simp [bluePart]
  | cons byte rest inductionHypothesis =>
      have later :=
        inductionHypothesis
          (fun other member => red other (List.mem_cons_of_mem byte member))
      rw [List.cons_append, bluePart_cons_of_ne _ (red byte (by simp)), later]

theorem redPart_of_flag
    {front blue : List UInt8} (red : ∀ byte ∈ front, byte ≠ gSplitFlag) :
    redPart (front ++ gSplitFlag :: blue) = front := by
  rw [redPart, List.takeWhile_append_of_pos (by simpa using red),
    List.takeWhile_cons_of_neg (by simp), List.append_nil]

/-- A selection with a split flag is its two parts. -/
theorem parts_of_bluePart
    {vch blue : List UInt8} (flag : bluePart vch = some blue) :
    vch = redPart vch ++ gSplitFlag :: blue ∧
      ∀ byte ∈ redPart vch, byte ≠ gSplitFlag := by
  refine ⟨?_, fun byte member => by simpa using List.mem_takeWhile_imp member⟩
  induction vch with
  | nil => cases flag
  | cons byte rest inductionHypothesis =>
      by_cases isFlag : byte = gSplitFlag
      · rw [isFlag] at flag ⊢
        have isBlue : bluePart (gSplitFlag :: rest) = some rest := by
          simp [bluePart]
        rw [isBlue, Option.some.injEq] at flag
        rw [redPart, List.takeWhile_cons_of_neg (by simp), List.nil_append,
          flag]
      · rw [bluePart_cons_of_ne rest isFlag] at flag
        have later := inductionHypothesis flag
        rw [redPart, List.takeWhile_cons_of_pos (by simpa using isFlag),
          List.cons_append, ← redPart, ← later]

/-- What `CLotto::IsValid` guarantees about the numbers of a bet. -/
structure WellFormed (bet : CBet) : Prop where
  sixes :
    bet.type = .type15_6 → 6 ≤ bet.vch.length ∧ bet.vch.length ≤ 15
  doubles :
    bet.type = .typeMulilt →
      ∃ blue, bluePart bet.vch = some blue ∧
        5 ≤ (redPart bet.vch).length ∧ 2 ≤ blue.length ∧ blue.length ≤ 11 ∧
        redPart bet.vch = sortBytes (redPart bet.vch) ∧
        blue = sortBytes blue
  covered : bet.coversMinBet = .ok true

/-- A check that must not fire in front of the remaining checks. -/
theorem guard_eq_ok
    {condition : Prop} [Decidable condition] {rest : Except Fault Bool} :
    (if condition then pure false else rest) = .ok true ↔
      ¬ condition ∧ rest = .ok true := by
  by_cases fires : condition
  · simp [fires, pure, Except.pure]
  · simp [fires]

theorem wellFormed_of_isValid
    {bet : CBet} (valid : bet.isValid = .ok true) :
    WellFormed bet := by
  rw [CBet.isValid] at valid
  cases type : bet.type with
  | type15_6 =>
      simp only [type, CBet.isValid15_6, guard_eq_ok] at valid
      rcases valid with ⟨size, -, -, -, -, covered⟩
      refine ⟨fun _ => by omega, fun other => ?_, covered⟩
      rw [type] at other
      cases other
  | typeMulilt =>
      simp only [type, CBet.isValidMulity, guard_eq_ok] at valid
      rcases valid with ⟨size, checks⟩
      cases flag : bluePart bet.vch with
      | none =>
          rw [flag] at checks
          cases checks
      | some blue =>
          simp only [flag, guard_eq_ok] at checks
          rcases checks with
            ⟨redLong, blueLong, -, -, blueHigh, blueLow, equal, redSorted,
              blueSorted, covered⟩
          refine ⟨fun other => ?_, fun _ => ?_, covered⟩
          · rw [type] at other
            cases other
          · have blueOrder :
                blue.Pairwise (fun left right => left ≤ right) := by
              rw [not_not.mp blueSorted]
              exact List.pairwise_insertionSort _ blue
            have blueDistinct : hasAdjacentEqual blue = false := by
              cases blue with
              | nil => rfl
              | cons first rest =>
                  simp only [hasAdjacentEqual, not_or, Bool.not_eq_true,
                    Bool.or_eq_false_iff] at equal
                  exact equal.2.2
            refine ⟨blue, flag, by omega, by omega, ?_,
              not_not.mp redSorted, not_not.mp blueSorted⟩
            apply length_le_of_increasing
              (pairwise_lt_of_sorted blueOrder blueDistinct)
            intro no member
            have low := (List.any_eq_false.mp
              (Bool.eq_false_iff.mpr blueLow)) no member
            have high := (List.any_eq_false.mp
              (Bool.eq_false_iff.mpr blueHigh)) no member
            simp only [decide_eq_true_eq, UInt8.not_lt,
              UInt8.le_iff_toNat_le] at low high
            exact ⟨low, high⟩

/-- A double selection of at most twenty red numbers. -/
def FewReds (bet : CBet) : Prop :=
  bet.type = .typeMulilt → (redPart bet.vch).length ≤ 20

section AcceptedBet

variable {bet : CBet} (wellFormed : WellFormed bet) (fewReds : FewReds bet)
include wellFormed fewReds

theorem getTotalBer_eq :
    bet.getTotalBer = .ok (Int32.ofNat (ticketCount bet.type bet.vch)) := by
  rw [CBet.getTotalBer]
  cases type : bet.type with
  | type15_6 =>
      have size := wellFormed.sixes type
      exact mselectN_eq_choose (n := 6) (by omega) (by omega)
  | typeMulilt =>
      rcases wellFormed.doubles type with
        ⟨blue, flag, redLong, blueLong, blueShort, -⟩
      have redShort := fewReds type
      have red := mselectN_eq_choose (m := (redPart bet.vch).length) (n := 5)
        (by omega) (by omega)
      have blueTickets := mselectN_eq_choose (m := blue.length) (n := 2)
        (by omega) (by omega)
      simp only [CBet.getTotalBerMulity, ticketCount, bluesOf, flag,
        Option.getD_some, Int32.ofNat_mul]
      erw [red, blueTickets]
      rfl

theorem ticketCount_bounds :
    0 < ticketCount bet.type bet.vch ∧
      ticketCount bet.type bet.vch ≤ 852720 := by
  cases type : bet.type with
  | type15_6 =>
      have size := wellFormed.sixes type
      constructor
      · exact Nat.choose_pos size.1
      · calc bet.vch.length.choose 6 ≤ (15).choose 6 :=
              Nat.choose_le_choose 6 size.2
          _ ≤ 852720 := by decide
  | typeMulilt =>
      rcases wellFormed.doubles type with
        ⟨blue, flag, redLong, blueLong, blueShort, -⟩
      have redShort := fewReds type
      simp only [ticketCount, bluesOf, flag, Option.getD_some]
      constructor
      · exact Nat.mul_pos (Nat.choose_pos redLong) (Nat.choose_pos blueLong)
      · calc (redPart bet.vch).length.choose 5 * blue.length.choose 2 ≤
              (20).choose 5 * (11).choose 2 :=
              Nat.mul_le_mul (Nat.choose_le_choose 5 redShort)
                (Nat.choose_le_choose 2 blueShort)
          _ = 852720 := by decide

theorem toInt_ticketCount :
    (Int32.ofNat (ticketCount bet.type bet.vch)).toInt64.toInt =
      ticketCount bet.type bet.vch := by
  have bounds := ticketCount_bounds wellFormed fewReds
  rw [Int32.toInt_toInt64, Int32.toInt_ofNat_of_lt (by omega)]

/-- An accepted bet pays more than the minimum for each of its tickets. -/
theorem minBet_lt_nValue :
    100000 * (ticketCount bet.type bet.vch : Int) < bet.nValue.toInt := by
  have bounds := ticketCount_bounds wellFormed fewReds
  have count := toInt_ticketCount wellFormed fewReds
  have minimum : nMinBet.toInt = 100000 := by decide
  have covered := wellFormed.covered
  rw [CBet.coversMinBet, getTotalBer_eq wellFormed fewReds] at covered
  have below :
      nMinBet * (Int32.ofNat (ticketCount bet.type bet.vch)).toInt64 <
        bet.nValue := by
    simpa [bind, Except.bind, pure, Except.pure] using covered
  rw [Int64.lt_iff_toInt_lt, toInt_mul_of_bounds, count, minimum] at below
  · exact below
  · rw [count, minimum]
    omega
  · rw [count, minimum]
    omega

/-- The quotient the machine computes is the ticket price. -/
theorem divide_nValue :
    ∃ npeerBetValue,
      divide bet.nValue
          (Int32.ofNat (ticketCount bet.type bet.vch)).toInt64 =
        .ok npeerBetValue ∧
      npeerBetValue.toInt = ticketPrice bet := by
  have bounds := ticketCount_bounds wellFormed fewReds
  have count := toInt_ticketCount wellFormed fewReds
  have paid := minBet_lt_nValue wellFormed fewReds
  have positive :
      0 < (Int32.ofNat (ticketCount bet.type bet.vch)).toInt64 := by
    rw [Int64.lt_iff_toInt_lt, count]
    simpa using bounds.1
  refine ⟨_, divide_of_pos positive, ?_⟩
  rw [toInt_div_of_nonneg (by omega) (by omega), count, ticketPrice,
    Int.natCast_ediv, Int.toNat_of_nonneg (by omega)]

theorem ticketPrice_pos : 0 < ticketPrice bet := by
  have bounds := ticketCount_bounds wellFormed fewReds
  have paid := minBet_lt_nValue wellFormed fewReds
  rw [ticketPrice, Nat.div_pos_iff]
  omega

end AcceptedBet

/-! ## The prize map of an accepted bet -/

/-- A draw with a split flag among its double numbers. -/
def HasFlag (stars : BetType → List UInt8) : Prop :=
  ∃ blue, bluePart (stars .typeMulilt) = some blue

theorem luckyCount_le (selected lucky : List UInt8) :
    luckyCount selected lucky ≤ selected.length :=
  List.length_filter_le _ _

/-- Prizes in a map are the values won, and a tier without any is absent. -/
def PaysExactly (rewardmap : RewardMap) (won : RwdType → Nat) : Prop :=
  ∀ rt, match rewardmap rt with
    | none => won rt = 0
    | some second => 0 < won rt ∧ second.toInt = won rt

theorem rewardMapOf_paysExactly
    {tickets : RwdType → Nat} {npeerBetValue : Int64} {price : Nat}
    (few : ∀ rt, tickets rt < 2 ^ 31)
    (priced : npeerBetValue.toInt = price)
    (positive : 0 < price)
    (fits : ∀ rt, tickets rt * price < 2 ^ 63) :
    PaysExactly
      (rewardMapOf (fun rt => Int32.ofNat (tickets rt)) npeerBetValue)
      (fun rt => tickets rt * price) := by
  intro rt
  have count : (Int32.ofNat (tickets rt)).toInt = tickets rt :=
    Int32.toInt_ofNat_of_lt (few rt)
  have product :
      (Int32.ofNat (tickets rt)).toInt64.toInt * npeerBetValue.toInt =
        (tickets rt * price : Nat) := by
    rw [Int32.toInt_toInt64, count, priced]
    push_cast
    rfl
  have bound := fits rt
  rw [rewardMapOf]
  by_cases none : tickets rt = 0
  · have zero : ¬ 0 < Int32.ofNat (tickets rt) := by
      rw [Int32.lt_iff_toInt_lt, count]
      simp [none]
    rw [if_neg zero]
    simp [none]
  · have some : 0 < Int32.ofNat (tickets rt) := by
      rw [Int32.lt_iff_toInt_lt, count]
      simpa using Nat.pos_of_ne_zero none
    rw [if_pos some]
    refine ⟨Nat.mul_pos (Nat.pos_of_ne_zero none) positive, ?_⟩
    rw [toInt_mul_of_bounds, product]
    · rw [product]
      omega
    · rw [product]
      omega

section PrizeMap

variable {stars : BetType → List UInt8} {bet : CBet}
variable (wellFormed : WellFormed bet) (fewReds : FewReds bet)
include wellFormed fewReds

theorem winningTickets_le (rt : RwdType) :
    winningTickets (stars bet.type) bet.vch bet.type rt ≤
      3 * ticketCount bet.type bet.vch := by
  have some := (ticketCount_bounds wellFormed fewReds).1
  cases type : bet.type with
  | type15_6 =>
      have inside := luckyCount_le bet.vch (stars .type15_6)
      have hits :
          ∀ hits ≤ 6,
            hitTickets bet.vch.length
                (luckyCount bet.vch (stars .type15_6)) 6 hits ≤
              3 * bet.vch.length.choose 6 := by
        intro hits fits
        have bound := hitTickets_le inside fits
        omega
      cases rt with
      | top1 => exact hits 6 (by omega)
      | top2 => exact hits 5 (by omega)
      | top3 => exact hits 4 (by omega)
      | top4 => exact Nat.zero_le _
      | top5 => exact Nat.zero_le _
  | typeMulilt =>
      rw [type, ticketCount] at some
      have tier :
          ∀ pairs : List (Nat × Nat), pairs.length ≤ 3 →
            (∀ hits ∈ pairs, hits.1 ≤ 5 ∧ hits.2 ≤ 2) →
            doubleWins (redPart bet.vch).length
              (luckyCount (redPart bet.vch) (luckyReds (stars .typeMulilt)))
              (bluesOf bet.vch).length
              (luckyCount (bluesOf bet.vch) (luckyBlues (stars .typeMulilt)))
              pairs ≤
                3 * ((redPart bet.vch).length.choose 5 *
                  (bluesOf bet.vch).length.choose 2) := by
        intro pairs short fit
        have bound := doubleWins_le
          (luckyCount_le (redPart bet.vch) (luckyReds (stars .typeMulilt)))
          (luckyCount_le (bluesOf bet.vch) (luckyBlues (stars .typeMulilt)))
          fit
        exact bound.trans (Nat.mul_le_mul_right _ short)
      cases rt with
      | top1 =>
          rw [winningTickets, ticketCount]
          split_ifs
          · omega
          · exact Nat.zero_le _
      | top2 => exact tier _ (by decide) (mulityHits_fit .top2)
      | top3 => exact tier _ (by decide) (mulityHits_fit .top3)
      | top4 => exact tier _ (by decide) (mulityHits_fit .top4)
      | top5 => exact tier _ (by decide) (mulityHits_fit .top5)

theorem winningTickets_lt (rt : RwdType) :
    winningTickets (stars bet.type) bet.vch bet.type rt < 2 ^ 31 := by
  have bound := @winningTickets_le stars bet wellFormed fewReds rt
  have few := (ticketCount_bounds wellFormed fewReds).2
  omega

/-- No tier wins more than three times the stake. -/
theorem wonValue_le (rt : RwdType) :
    wonValue stars bet rt ≤ 3 * bet.nValue.toInt.toNat := by
  calc
    wonValue stars bet rt ≤
        3 * ticketCount bet.type bet.vch * ticketPrice bet :=
      Nat.mul_le_mul_right _ (winningTickets_le wellFormed fewReds rt)
    _ = 3 * (ticketCount bet.type bet.vch * ticketPrice bet) :=
      Nat.mul_assoc _ _ _
    _ ≤ 3 * bet.nValue.toInt.toNat :=
      Nat.mul_le_mul_left 3 (Nat.mul_div_le _ _)

theorem getTotalBer_of_same
    (other : CBet)
    (types : other.type = bet.type) (numbers : other.vch = bet.vch) :
    other.getTotalBer =
      .ok (Int32.ofNat (ticketCount bet.type bet.vch)) := by
  rw [← getTotalBer_eq wellFormed fewReds, CBet.getTotalBer,
    CBet.getTotalBer, types, CBet.getTotalBer15_6, CBet.getTotalBer15_6,
    CBet.getTotalBerMulity, CBet.getTotalBerMulity, numbers]

theorem createRewardMap15_6_ok
    (type : bet.type = .type15_6)
    (fits : ∀ rt, wonValue stars bet rt < 2 ^ 63) :
    ∃ rewardmap,
      CBet.createRewardMap15_6 { bet with vLuckyStar := stars .type15_6 } =
        .ok rewardmap ∧
      PaysExactly rewardmap (wonValue stars bet) := by
  have size := wellFormed.sixes type
  have hits :
      ∀ hits ≤ 6,
        ticketsWithHits bet.vch.length
            (luckyCount bet.vch (stars .type15_6)) 6 hits =
          .ok (Int32.ofNat (hitTickets bet.vch.length
            (luckyCount bet.vch (stars .type15_6)) 6 hits)) := by
    intro hits small
    have inside := luckyCount_le bet.vch (stars .type15_6)
    exact ticketsWithHits_eq (by omega) (by omega) (by omega) small
  rcases divide_nValue wellFormed fewReds with
    ⟨npeerBetValue, quotient, priced⟩
  refine ⟨_, ?_, rewardMapOf_paysExactly
    (winningTickets_lt wellFormed fewReds) priced
    (ticketPrice_pos wellFormed fewReds) fits⟩
  rw [CBet.createRewardMap15_6,
    getTotalBer_of_same wellFormed fewReds
      { bet with vLuckyStar := stars .type15_6 } rfl rfl]
  simp only [bind, Except.bind, quotient, hits 6 (by omega),
    hits 5 (by omega), hits 4 (by omega), pure, Except.pure]
  congr 2
  funext rt
  rw [type]
  cases rt <;> rfl

omit fewReds in
/-- The prize map of a double bet, from the number it is divided by. -/
theorem createRewardMapMulity_eq
    (type : bet.type = .typeMulilt)
    (hasFlag : HasFlag stars)
    {total : Int32} {npeerBetValue : Int64}
    (counted : bet.getTotalBer = .ok total)
    (quotient : divide bet.nValue total.toInt64 = .ok npeerBetValue)
    (redHits :
      luckyCount (redPart bet.vch) (luckyReds (stars .typeMulilt)) ≤ 20)
    (redMisses :
      (redPart bet.vch).length -
        luckyCount (redPart bet.vch) (luckyReds (stars .typeMulilt)) ≤ 20) :
    CBet.createRewardMapMulity
        { CBet.splitSelectNum bet with vLuckyStar := stars .typeMulilt } =
      .ok (rewardMapOf
        (fun rt => Int32.ofNat
          (winningTickets (stars .typeMulilt) bet.vch .typeMulilt rt))
        npeerBetValue) := by
  rcases wellFormed.doubles type with
    ⟨blue, flag, redLong, blueLong, blueShort, redSorted, blueSorted⟩
  rcases hasFlag with ⟨additinualLucky, starsFlag⟩
  have split :
      CBet.splitSelectNum bet =
        { bet with vRed := redPart bet.vch, vBlue := blue } := by
    simp only [CBet.splitSelectNum, flag]
    rw [← redSorted, ← blueSorted]
  have blueHits := luckyCount_le blue (luckyBlues (stars .typeMulilt))
  have tiers :
      ∀ rt,
        doubleTicketSum (redPart bet.vch).length
            (luckyCount (redPart bet.vch) (luckyReds (stars .typeMulilt)))
            blue.length
            (luckyCount blue (luckyBlues (stars .typeMulilt)))
            (mulityHits rt) =
          .ok (Int32.ofNat (doubleWins (redPart bet.vch).length
            (luckyCount (redPart bet.vch) (luckyReds (stars .typeMulilt)))
            blue.length
            (luckyCount blue (luckyBlues (stars .typeMulilt)))
            (mulityHits rt))) := by
    intro rt
    exact doubleTicketSum_eq redHits redMisses (by omega) (by omega)
      (mulityHits_fit rt)
  have sameTotal :
      CBet.getTotalBer
          { bet with
            vRed := redPart bet.vch
            vBlue := blue
            vLuckyStar := stars .typeMulilt } = .ok total := by
    rw [← counted, CBet.getTotalBer, CBet.getTotalBer]
    rfl
  have nonempty :
      ¬ ((redPart bet.vch).isEmpty = true ∨ blue.isEmpty = true) := by
    rw [List.isEmpty_iff_length_eq_zero, List.isEmpty_iff_length_eq_zero]
    omega
  rw [split]
  simp only [CBet.createRewardMapMulity, starsFlag, if_neg nonempty,
    CBet.calcRewardBet]
  rw [sameTotal]
  have reds : sortBytes (redPart (stars .typeMulilt)) =
      luckyReds (stars .typeMulilt) := rfl
  have blues : sortBytes additinualLucky =
      luckyBlues (stars .typeMulilt) := by
    rw [luckyBlues, starsFlag, Option.getD_some]
  simp only [bind, Except.bind, quotient, reds, blues, tiers, pure,
    Except.pure]
  congr 2
  funext rt
  cases rt with
  | top1 =>
      simp only [winningTickets, bluesOf, flag, Option.getD_some]
      split_ifs <;> rfl
  | _ => simp only [winningTickets, bluesOf, flag, Option.getD_some]

theorem createRewardMapMulity_ok
    (type : bet.type = .typeMulilt)
    (hasFlag : HasFlag stars)
    (fits : ∀ rt, wonValue stars bet rt < 2 ^ 63) :
    ∃ rewardmap,
      CBet.createRewardMapMulity
          { CBet.splitSelectNum bet with vLuckyStar := stars .typeMulilt } =
        .ok rewardmap ∧
      PaysExactly rewardmap (wonValue stars bet) := by
  have redShort := fewReds type
  have redHits :=
    luckyCount_le (redPart bet.vch) (luckyReds (stars .typeMulilt))
  rcases divide_nValue wellFormed fewReds with
    ⟨npeerBetValue, quotient, priced⟩
  refine ⟨_,
    createRewardMapMulity_eq wellFormed type hasFlag
      (getTotalBer_eq wellFormed fewReds) quotient (by omega) (by omega), ?_⟩
  rw [← type]
  exact rewardMapOf_paysExactly (winningTickets_lt wellFormed fewReds) priced
    (ticketPrice_pos wellFormed fewReds) fits

omit wellFormed fewReds in
theorem splitSelectNum_same (bet : CBet) :
    (CBet.splitSelectNum bet).type = bet.type ∧
      (CBet.splitSelectNum bet).vch = bet.vch ∧
      (CBet.splitSelectNum bet).nValue = bet.nValue := by
  rw [CBet.splitSelectNum]
  split
  · exact ⟨rfl, rfl, rfl⟩
  · exact ⟨rfl, rfl, rfl⟩

omit wellFormed fewReds in
theorem createRewardMap_of_rewardMap
    {other : CBet} {rewardmap : RewardMap}
    (created : CBet.rewardMapByType other = .ok rewardmap) :
    CBet.createRewardMap other =
      .ok { other with rewardmap := rewardmap } := by
  rw [CBet.createRewardMap, created]
  rfl

omit wellFormed fewReds in
theorem rewardMapByType_type15_6
    {other : CBet} (type : other.type = .type15_6) :
    CBet.rewardMapByType other = CBet.createRewardMap15_6 other := by
  rw [CBet.rewardMapByType, type]

omit wellFormed fewReds in
theorem rewardMapByType_typeMulilt
    {other : CBet} (type : other.type = .typeMulilt) :
    CBet.rewardMapByType other = CBet.createRewardMapMulity other := by
  rw [CBet.rewardMapByType, type]

theorem createRewardMap_ok
    (hasFlag : HasFlag stars)
    (fits : ∀ rt, wonValue stars bet rt < 2 ^ 63) :
    ∃ ready,
      CBet.createRewardMap
          { (match bet.type with
              | .type15_6 => bet
              | .typeMulilt => CBet.splitSelectNum bet) with
            vLuckyStar := stars bet.type } = .ok ready ∧
      ready.type = bet.type ∧ ready.vch = bet.vch ∧
      ready.nValue = bet.nValue ∧
      PaysExactly ready.rewardmap (wonValue stars bet) := by
  cases type : bet.type with
  | type15_6 =>
      rcases createRewardMap15_6_ok wellFormed fewReds type fits with
        ⟨rewardmap, created, pays⟩
      refine ⟨_, createRewardMap_of_rewardMap
        (Eq.trans (rewardMapByType_type15_6 ?_) created),
        type, rfl, rfl, pays⟩
      exact type
  | typeMulilt =>
      rcases createRewardMapMulity_ok wellFormed fewReds type hasFlag fits with
        ⟨rewardmap, created, pays⟩
      have same := splitSelectNum_same bet
      refine ⟨_, createRewardMap_of_rewardMap
        (Eq.trans (rewardMapByType_typeMulilt ?_) created),
        same.1.trans type, same.2.1, same.2.2, pays⟩
      exact same.1.trans type

end PrizeMap

/--
`CLotto::Init` on an output with an accepted bet of at most twenty red
numbers: the prize map holds the values won.
-/
theorem initBet_ok
    {stars : BetType → List UInt8} {txout : CTxOut} {data : List UInt8}
    {bet : CBet}
    (found : getBetData txout.scriptPubKey = some data)
    (parsed : CBet.ofBetData data txout.nValue = .ok bet)
    (valid : bet.isValid = .ok true)
    (fewReds : FewReds bet)
    (hasFlag : HasFlag stars)
    (fits : ∀ rt, wonValue stars bet rt < 2 ^ 63) :
    ∃ ready,
      initBet stars txout = .ok ready ∧
      ready.type = bet.type ∧ ready.vch = bet.vch ∧
      ready.nValue = bet.nValue ∧
      PaysExactly ready.rewardmap (wonValue stars bet) := by
  rcases createRewardMap_ok (wellFormed_of_isValid valid) fewReds hasFlag
    fits with ⟨ready, created, facts⟩
  refine ⟨ready, ?_, facts⟩
  rw [← created]
  simp only [initBet, found, createCbet, parsed, bind, Except.bind, pure,
    Except.pure]
  cases type : bet.type with
  | type15_6 => simp only [type]
  | typeMulilt => simp only [(splitSelectNum_same bet).1, type]

end DSValue.Lotto.Tickets

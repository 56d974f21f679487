import DSValue.Lib.Choices
import DSValue.Lotto.Validity

/-!
# Counting tickets by enumeration

A selection stands for the choices of six numbers from it, or for the pairs of
five of its red and two of its blue numbers.  `CreateRewardMap` counts the
winning ones by products of binomials.  Here they are enumerated, and the
prize map of an accepted bet is compared with the enumeration.
-/

namespace DSValue.Lotto.Enumeration

open DSValue.Lib
open DSValue.Lib.Choices
open DSValue.Lotto.Bet
open DSValue.Lotto.Draw
open DSValue.Lotto.Tickets
open DSValue.Lotto.Validity

/-! ## Enumerated tickets -/

/-- The hits of a ticket of six numbers in each tier. -/
def sixTier : RwdType → List Nat
  | .top1 => [6]
  | .top2 => [5]
  | .top3 => [4]
  | .top4 => []
  | .top5 => []

/-- The red and blue hits of a double ticket in each tier. -/
def doubleTier : RwdType → List (Nat × Nat)
  | .top1 => [(5, 2)]
  | .top2 => [(5, 1), (4, 2)]
  | .top3 => [(4, 1), (5, 0), (3, 2)]
  | .top4 => [(4, 0), (3, 1), (2, 2)]
  | .top5 => [(3, 0), (2, 1), (0, 2)]

/-- The tickets of a selection. -/
def enumeratedTickets (vch : List UInt8) : BetType → Nat
  | .type15_6 => (vch.toFinset.powersetCard 6).card
  | .typeMulilt =>
      ((redPart vch).toFinset.powersetCard 5 ×ˢ
        (bluesOf vch).toFinset.powersetCard 2).card

/-- The tickets of a selection that win in a tier. -/
def enumeratedWins (lucky vch : List UInt8) : BetType → RwdType → Nat
  | .type15_6, rt =>
      ((vch.toFinset.powersetCard 6).filter fun ticket =>
        (ticket ∩ lucky.toFinset).card ∈ sixTier rt).card
  | .typeMulilt, rt =>
      (pairsWithHits (redPart vch).toFinset (redPart lucky).toFinset
        (bluesOf vch).toFinset (bluesOf lucky).toFinset 5 2
        (doubleTier rt)).card

/-- The numbers of a draw. -/
structure DrawnNumbers (stars : BetType → List UInt8) : Prop where
  six : (stars .type15_6).Nodup ∧ (stars .type15_6).length = 6
  flag : bluePart (stars .typeMulilt) = some (bluesOf (stars .typeMulilt))
  reds :
    (redPart (stars .typeMulilt)).Nodup ∧
      (redPart (stars .typeMulilt)).length = 5
  redRange :
    ∀ no ∈ redPart (stars .typeMulilt), 1 ≤ no.toNat ∧ no.toNat ≤ 20
  blues :
    (bluesOf (stars .typeMulilt)).Nodup ∧
      (bluesOf (stars .typeMulilt)).length = 2

theorem enumeratedWins_le
    (lucky vch : List UInt8) (type : BetType) (rt : RwdType) :
    enumeratedWins lucky vch type rt ≤ enumeratedTickets vch type := by
  cases type with
  | type15_6 => exact Finset.card_filter_le _ _
  | typeMulilt => exact Finset.card_filter_le _ _

/-! ## Counting hits -/

theorem luckyCount_eq_card
    {selected : List UInt8} (nodup : selected.Nodup) (lucky : List UInt8) :
    luckyCount selected lucky =
      (selected.toFinset ∩ lucky.toFinset).card := by
  rw [luckyCount, ← List.toFinset_card_of_nodup (nodup.filter _)]
  congr 1
  ext no
  simp

theorem misses_eq_card
    {selected : List UInt8} (nodup : selected.Nodup) (lucky : List UInt8) :
    selected.length - luckyCount selected lucky =
      (selected.toFinset \ lucky.toFinset).card := by
  rw [luckyCount_eq_card nodup, Finset.card_sdiff, Finset.inter_comm,
    List.toFinset_card_of_nodup nodup]

theorem toFinset_sortBytes (bytes : List UInt8) :
    (sortBytes bytes).toFinset = bytes.toFinset := by
  ext no
  simp [sortBytes]

theorem card_withHits_eq
    {selected : List UInt8} (nodup : selected.Nodup) (lucky : List UInt8)
    {size hits : Nat} (fits : hits ≤ size) :
    (withHits selected.toFinset lucky.toFinset size hits).card =
      hitTickets selected.length (luckyCount selected lucky) size hits := by
  rw [card_withHits _ _ fits, hitTickets, misses_eq_card nodup,
    luckyCount_eq_card nodup]

theorem luckyCount_le_lucky
    {selected : List UInt8} (nodup : selected.Nodup) (lucky : List UInt8) :
    luckyCount selected lucky ≤ lucky.length := by
  rw [luckyCount_eq_card nodup]
  exact (Finset.card_le_card Finset.inter_subset_right).trans
    (List.toFinset_card_le lucky)

theorem card_pairsWithHits_eq
    {reds blues luckyRed luckyBlue : List UInt8} (redNodup : reds.Nodup)
    (blueNodup : blues.Nodup) {pairs : List (Nat × Nat)}
    (distinct : pairs.Nodup)
    (fit : ∀ hits ∈ pairs, hits.1 ≤ 5 ∧ hits.2 ≤ 2) :
    (pairsWithHits reds.toFinset luckyRed.toFinset blues.toFinset
        luckyBlue.toFinset 5 2 pairs).card =
      doubleWins reds.length (luckyCount reds luckyRed) blues.length
        (luckyCount blues luckyBlue) pairs := by
  induction pairs with
  | nil => simp [pairsWithHits, doubleWins]
  | cons hits rest inductionHypothesis =>
      rcases List.nodup_cons.mp distinct with ⟨absent, restDistinct⟩
      have hitsFit := fit hits List.mem_cons_self
      rw [card_pairsWithHits_cons _ _ _ _ _ _ absent, doubleWins,
        card_withHits_eq redNodup _ hitsFit.1,
        card_withHits_eq blueNodup _ hitsFit.2,
        inductionHypothesis restDistinct
          (fun other member => fit other (List.mem_cons_of_mem _ member))]

/-! ## The numbers of accepted bets -/

theorem nodup_of_ascending
    {limit : Nat} {numbers : List UInt8}
    (ascending : Ascending limit numbers) : numbers.Nodup :=
  ascending.1.imp fun below => UInt8.ne_of_lt below

theorem ascending_six
    {bet : CBet} (valid : bet.isValid = .ok true)
    (type : bet.type = .type15_6) : Ascending 15 bet.vch := by
  rw [CBet.isValid, type] at valid
  rcases (isValid15_6_iff type).mp valid with ⟨-, -, ascending, -⟩
  exact ascending

theorem ascending_double
    {bet : CBet} (valid : bet.isValid = .ok true)
    (type : bet.type = .typeMulilt) :
    Ascending 21 (redPart bet.vch) ∧ Ascending 11 (bluesOf bet.vch) ∧
      bet.vch.length ≤ 31 ∧ bluePart bet.vch = some (bluesOf bet.vch) := by
  rw [CBet.isValid, type] at valid
  rcases (isValidMulity_iff type).mp valid with
    ⟨size, reds, blues, parts, -, red, -, blue, -⟩
  have away := red.ne_flag (by decide)
  have flag : bluePart bet.vch = some blues := by
    rw [parts, bluePart_of_flag away]
  have isRed : redPart bet.vch = reds := by
    rw [parts, redPart_of_flag away]
  have isBlue : bluesOf bet.vch = blues := by
    rw [bluesOf, flag, Option.getD_some]
  rw [isRed, isBlue]
  exact ⟨red, blue, size, flag⟩

theorem enumeratedTickets_eq
    {bet : CBet} (valid : bet.isValid = .ok true) :
    enumeratedTickets bet.vch bet.type = ticketCount bet.type bet.vch := by
  cases type : bet.type with
  | type15_6 =>
      rw [enumeratedTickets, Finset.card_powersetCard,
        List.toFinset_card_of_nodup
          (nodup_of_ascending (ascending_six valid type)), ticketCount]
  | typeMulilt =>
      rcases ascending_double valid type with ⟨red, blue, -⟩
      rw [enumeratedTickets, Finset.card_product, Finset.card_powersetCard,
        Finset.card_powersetCard,
        List.toFinset_card_of_nodup (nodup_of_ascending red),
        List.toFinset_card_of_nodup (nodup_of_ascending blue), ticketCount]

/-- A tier with one number of hits. -/
theorem card_filter_singleton
    {selected : List UInt8} (nodup : selected.Nodup) (lucky : List UInt8)
    {hits : Nat} (fits : hits ≤ 6) :
    ((selected.toFinset.powersetCard 6).filter fun ticket =>
        (ticket ∩ lucky.toFinset).card ∈ [hits]).card =
      hitTickets selected.length (luckyCount selected lucky) 6 hits := by
  rw [← card_withHits_eq nodup lucky fits, withHits]
  simp only [List.mem_singleton]

/-- All five and both: there is at most one such ticket. -/
theorem hitTickets_all
    {redSize redCount blueSize blueCount : Nat}
    (redFew : redCount ≤ 5) (blueFew : blueCount ≤ 2) :
    doubleWins redSize redCount blueSize blueCount [(5, 2)] =
      if 5 ≤ redCount ∧ 2 ≤ blueCount then 1 else 0 := by
  simp only [doubleWins, hitTickets, Nat.sub_self, Nat.choose_zero_right,
    Nat.mul_one, Nat.add_zero]
  split_ifs with all
  · have isFive : redCount = 5 := by omega
    have isTwo : blueCount = 2 := by omega
    rw [isFive, isTwo]
    rfl
  · by_cases red : 5 ≤ redCount
    · rw [Nat.choose_eq_zero_of_lt (show blueCount < 2 by omega),
        Nat.mul_zero]
    · rw [Nat.choose_eq_zero_of_lt (show redCount < 5 by omega),
        Nat.zero_mul]

theorem luckyCount_sortBytes
    {selected : List UInt8} (nodup : selected.Nodup) (lucky : List UInt8) :
    luckyCount selected (sortBytes lucky) = luckyCount selected lucky := by
  rw [luckyCount_eq_card nodup, luckyCount_eq_card nodup, toFinset_sortBytes]

/-- The winning tickets of a double selection, with the first tier. -/
theorem winningTickets_double
    {lucky vch : List UInt8}
    (redFew : luckyCount (redPart vch) (luckyReds lucky) ≤ 5)
    (blueFew : luckyCount (bluesOf vch) (luckyBlues lucky) ≤ 2)
    (rt : RwdType) :
    winningTickets lucky vch .typeMulilt rt =
      doubleWins (redPart vch).length
        (luckyCount (redPart vch) (luckyReds lucky))
        (bluesOf vch).length
        (luckyCount (bluesOf vch) (luckyBlues lucky)) (doubleTier rt) := by
  cases rt with
  | top1 =>
      rw [winningTickets, doubleTier, hitTickets_all redFew blueFew]
  | top2 =>
      simp only [winningTickets, doubleTier, mulityHits, doubleWins,
        Nat.add_zero]
      exact Nat.add_comm _ _
  | top3 => rfl
  | top4 => rfl
  | top5 => rfl

section Double

variable {bet : CBet} {stars : BetType → List UInt8}
variable (valid : bet.isValid = .ok true)
  (type : bet.type = .typeMulilt) (drawn : DrawnNumbers stars)
include valid type drawn

/-- The red hits of an accepted double bet. -/
theorem redHits_eq :
    luckyCount (redPart bet.vch) (luckyReds (stars .typeMulilt)) =
        luckyCount (redPart bet.vch) (redPart (stars .typeMulilt)) ∧
      luckyCount (redPart bet.vch) (redPart (stars .typeMulilt)) ≤ 5 := by
  have nodup := nodup_of_ascending (ascending_double valid type).1
  refine ⟨luckyCount_sortBytes nodup _, ?_⟩
  have few := luckyCount_le_lucky nodup (redPart (stars .typeMulilt))
  rwa [drawn.reds.2] at few

/-- The blue hits of an accepted double bet. -/
theorem blueHits_eq :
    luckyCount (bluesOf bet.vch) (luckyBlues (stars .typeMulilt)) =
        luckyCount (bluesOf bet.vch) (bluesOf (stars .typeMulilt)) ∧
      luckyCount (bluesOf bet.vch) (bluesOf (stars .typeMulilt)) ≤ 2 := by
  have nodup := nodup_of_ascending (ascending_double valid type).2.1
  refine ⟨luckyCount_sortBytes nodup _, ?_⟩
  have few := luckyCount_le_lucky nodup (bluesOf (stars .typeMulilt))
  rwa [drawn.blues.2] at few

theorem winningTickets_eq_doubleWins (rt : RwdType) :
    winningTickets (stars .typeMulilt) bet.vch .typeMulilt rt =
      doubleWins (redPart bet.vch).length
        (luckyCount (redPart bet.vch) (redPart (stars .typeMulilt)))
        (bluesOf bet.vch).length
        (luckyCount (bluesOf bet.vch) (bluesOf (stars .typeMulilt)))
        (doubleTier rt) := by
  rcases redHits_eq valid type drawn with ⟨isRed, redFew⟩
  rcases blueHits_eq valid type drawn with ⟨isBlue, blueFew⟩
  rw [winningTickets_double (by rwa [isRed]) (by rwa [isBlue]), isRed, isBlue]

end Double

theorem doubleTier_fit (rt : RwdType) :
    (doubleTier rt).Nodup ∧ ∀ hits ∈ doubleTier rt, hits.1 ≤ 5 ∧ hits.2 ≤ 2 := by
  cases rt <;> decide

/-- The products of binomials count the enumerated tickets. -/
theorem enumeratedWins_eq
    {bet : CBet} {stars : BetType → List UInt8}
    (valid : bet.isValid = .ok true) (drawn : DrawnNumbers stars)
    (rt : RwdType) :
    enumeratedWins (stars bet.type) bet.vch bet.type rt =
      winningTickets (stars bet.type) bet.vch bet.type rt := by
  cases type : bet.type with
  | type15_6 =>
      have nodup := nodup_of_ascending (ascending_six valid type)
      cases rt with
      | top1 => exact card_filter_singleton nodup _ (by decide)
      | top2 => exact card_filter_singleton nodup _ (by decide)
      | top3 => exact card_filter_singleton nodup _ (by decide)
      | top4 => simp [enumeratedWins, sixTier, winningTickets]
      | top5 => simp [enumeratedWins, sixTier, winningTickets]
  | typeMulilt =>
      rcases ascending_double valid type with ⟨red, blue, -⟩
      rcases doubleTier_fit rt with ⟨distinct, fit⟩
      rw [winningTickets_eq_doubleWins valid type drawn, enumeratedWins,
        card_pairsWithHits_eq (nodup_of_ascending red)
          (nodup_of_ascending blue) distinct fit]

/-! ## The prize map -/

/-- A bet with its lucky numbers, as `CLotto::Init` makes it. -/
def prepared (stars : BetType → List UInt8) (bet : CBet) : CBet :=
  { (match bet.type with
      | .type15_6 => bet
      | .typeMulilt => CBet.splitSelectNum bet) with
    vLuckyStar := stars bet.type }

/--
The prize map holds the value of a ticket times the number of winning tickets
where there are any, and nothing else.
-/
def MatchesEnumeration (stars : BetType → List UInt8) (bet : CBet) : Prop :=
  ∃ ready, CBet.createRewardMap (prepared stars bet) = .ok ready ∧
    ∀ rt,
      match ready.rewardmap rt with
      | none => enumeratedWins (stars bet.type) bet.vch bet.type rt = 0
      | some second =>
          0 < enumeratedWins (stars bet.type) bet.vch bet.type rt ∧
          second.toInt =
            bet.nValue.toInt.tdiv (enumeratedTickets bet.vch bet.type) *
              enumeratedWins (stars bet.type) bet.vch bet.type rt

theorem hasFlag_of_drawn
    {stars : BetType → List UInt8} (drawn : DrawnNumbers stars) :
    HasFlag stars :=
  ⟨_, drawn.flag⟩

theorem matchesEnumeration_of_fewReds
    {stars : BetType → List UInt8} {bet : CBet}
    (valid : bet.isValid = .ok true) (drawn : DrawnNumbers stars)
    (fewReds : FewReds bet) : MatchesEnumeration stars bet := by
  have wellFormed := wellFormed_of_isValid valid
  have tickets := enumeratedTickets_eq valid
  have wins := enumeratedWins_eq valid drawn
  have paid := minBet_lt_nValue wellFormed fewReds
  have price :
      bet.nValue.toInt.tdiv (ticketCount bet.type bet.vch) =
        ticketPrice bet := by
    rw [ticketPrice, Int.tdiv_eq_ediv_of_nonneg (by omega), Int.natCast_ediv,
      Int.toNat_of_nonneg (by omega)]
  have fits : ∀ rt, wonValue stars bet rt < 2 ^ 63 := by
    intro rt
    have few := enumeratedWins_le (stars bet.type) bet.vch bet.type rt
    rw [wins, tickets] at few
    have value := bet.nValue.toInt_lt
    calc wonValue stars bet rt ≤
          ticketCount bet.type bet.vch * ticketPrice bet :=
          Nat.mul_le_mul_right _ few
      _ ≤ bet.nValue.toInt.toNat := Nat.mul_div_le _ _
      _ < 2 ^ 63 := by omega
  rcases createRewardMap_ok wellFormed fewReds (hasFlag_of_drawn drawn) fits
    with ⟨ready, created, -, -, -, pays⟩
  have positive := ticketPrice_pos wellFormed fewReds
  refine ⟨ready, created, ?_⟩
  intro rt
  have exactly := pays rt
  rw [wins, tickets, price]
  cases entry : ready.rewardmap rt with
  | none =>
      rw [entry] at exactly
      exact (Nat.mul_eq_zero.mp exactly).resolve_right (by omega)
  | some second =>
      rw [entry] at exactly
      refine ⟨Nat.pos_of_mul_pos_right exactly.1, ?_⟩
      rw [exactly.2, wonValue, Int.natCast_mul, Int.mul_comm]

/-! ## Twenty-one red numbers -/

/-- Twenty-one red numbers are all there are. -/
theorem mem_of_twentyOne
    {reds : List UInt8} (red : Ascending 21 reds) (many : reds.length = 21)
    {no : UInt8} (low : 1 ≤ no.toNat) (high : no.toNat ≤ 21) : no ∈ reds := by
  have nodup : (reds.map UInt8.toNat).Nodup :=
    (nodup_of_ascending red).map fun _ _ same => UInt8.toNat_inj.mp same
  have inside : reds.map UInt8.toNat ⊆ List.range' 1 21 := by
    intro value member
    rcases List.mem_map.mp member with ⟨other, inReds, rfl⟩
    have bounds := red.2 other inReds
    rw [List.mem_range'_1]
    omega
  have all : (reds.map UInt8.toNat).Perm (List.range' 1 21) := by
    apply (nodup.subperm inside).perm_of_length_le
    rw [List.length_map, many, List.length_range']
  have inRange : no.toNat ∈ List.range' 1 21 := by
    rw [List.mem_range'_1]
    omega
  rcases List.mem_map.mp (all.mem_iff.mpr inRange) with
    ⟨other, inReds, same⟩
  rwa [← UInt8.toNat_inj.mp same]

/-- So they hold every red number that is drawn. -/
theorem luckyCount_twentyOne
    {reds lucky : List UInt8} (red : Ascending 21 reds)
    (many : reds.length = 21) (nodup : lucky.Nodup)
    (range : ∀ no ∈ lucky, 1 ≤ no.toNat ∧ no.toNat ≤ 20) :
    luckyCount reds lucky = lucky.length := by
  have inside : lucky.toFinset ⊆ reds.toFinset := by
    intro no member
    rw [List.mem_toFinset] at member ⊢
    have bounds := range no member
    exact mem_of_twentyOne red many bounds.1 (by omega)
  rw [luckyCount_eq_card (nodup_of_ascending red),
    Finset.inter_eq_right.mpr inside, List.toFinset_card_of_nodup nodup]

/-- One tier is won by few tickets. -/
theorem few_wins_twentyOne
    {blues blueCount : Nat} (long : 2 ≤ blues) (short : blues ≤ 9)
    (hits : blueCount ≤ 2) :
    ∃ rt,
      0 < doubleWins 21 5 blues blueCount (doubleTier rt) ∧
      doubleWins 21 5 blues blueCount (doubleTier rt) ≤ 36 := by
  have table :
      ∀ blues < 10, 2 ≤ blues →
        (0 < doubleWins 21 5 blues 0 (doubleTier .top3) ∧
          doubleWins 21 5 blues 0 (doubleTier .top3) ≤ 36) ∧
        (0 < doubleWins 21 5 blues 1 (doubleTier .top2) ∧
          doubleWins 21 5 blues 1 (doubleTier .top2) ≤ 36) ∧
        0 < doubleWins 21 5 blues 2 (doubleTier .top1) ∧
          doubleWins 21 5 blues 2 (doubleTier .top1) ≤ 36 := by
    decide
  have entry := table blues (by omega) long
  rcases (by omega : blueCount = 0 ∨ blueCount = 1 ∨ blueCount = 2) with
    rfl | rfl | rfl
  · exact ⟨.top3, entry.1⟩
  · exact ⟨.top2, entry.2.1⟩
  · exact ⟨.top1, entry.2.2⟩

theorem tdiv_natCast (sign : Bool) (stake divisor : Nat) :
    (if sign = true then (stake : Int) else -stake).tdiv divisor =
      if sign = true then ((stake / divisor : Nat) : Int)
      else -(stake / divisor : Nat) := by
  cases sign with
  | true => exact Int.ofNat_tdiv stake divisor
  | false =>
      simp only [Bool.false_eq_true, if_false]
      rw [Int.neg_tdiv, Int.ofNat_tdiv]

/-- A stake by a negative and by a positive number of tickets. -/
theorem tdiv_eq_tdiv_iff
    {stake : Int} {tickets : Nat} (positive : 0 < tickets) :
    stake.tdiv (-1692 * tickets) = stake.tdiv (20349 * tickets) ↔
      stake.natAbs < 1692 * tickets := by
  have signed :
      ∃ sign : Bool, stake =
        if sign = true then (stake.natAbs : Int) else -stake.natAbs := by
    rcases Int.natAbs_eq stake with isStake | isStake
    · exact ⟨true, isStake⟩
    · exact ⟨false, isStake⟩
  rcases signed with ⟨sign, isStake⟩
  have first := tdiv_natCast sign stake.natAbs (1692 * tickets)
  have second := tdiv_natCast sign stake.natAbs (20349 * tickets)
  have few : (1692 * tickets : Int) = (1692 * tickets : Nat) := by
    push_cast
    rfl
  have all : (20349 * tickets : Int) = (20349 * tickets : Nat) := by
    push_cast
    rfl
  rw [← isStake] at first second
  rw [Int.neg_mul, Int.tdiv_neg, few, all, first, second,
    ← Nat.div_eq_zero_iff_lt (show 0 < 1692 * tickets by omega)]
  have smaller :
      stake.natAbs / (20349 * tickets) ≤ stake.natAbs / (1692 * tickets) :=
    Nat.div_le_div_left (by omega) (by omega)
  generalize stake.natAbs / (20349 * tickets) = fewer at smaller ⊢
  generalize stake.natAbs / (1692 * tickets) = more at smaller ⊢
  cases sign
  · simp only [Bool.false_eq_true, if_false]
    omega
  · simp only [if_true]
    omega

section TwentyOne

variable {bet : CBet} {stars : BetType → List UInt8}
variable (valid : bet.isValid = .ok true)
  (type : bet.type = .typeMulilt) (drawn : DrawnNumbers stars)
  (many : (redPart bet.vch).length = 21)
include valid type drawn many

omit drawn in
/-- The blue numbers beside twenty-one red ones. -/
theorem blues_twentyOne :
    2 ≤ (bluesOf bet.vch).length ∧ (bluesOf bet.vch).length ≤ 9 := by
  rcases ascending_double valid type with ⟨-, -, size, flag⟩
  rcases (wellFormed_of_isValid valid).doubles type with
    ⟨blue, otherFlag, -, long, -⟩
  rw [flag, Option.some.injEq] at otherFlag
  have parts := congrArg List.length (parts_of_bluePart flag).1
  rw [List.length_append, List.length_cons] at parts
  rw [← otherFlag] at long
  omega

/-- The prize map divides the stake by a negative number. -/
theorem createRewardMap_twentyOne :
    ∃ npeerBetValue : Int64,
      npeerBetValue.toInt =
        bet.nValue.toInt.tdiv
          (-1692 * (bluesOf bet.vch).length.choose 2) ∧
      ∃ ready, CBet.createRewardMap (prepared stars bet) = .ok ready ∧
        ready.rewardmap =
          rewardMapOf
            (fun rt => Int32.ofNat
              (winningTickets (stars .typeMulilt) bet.vch .typeMulilt rt))
            npeerBetValue := by
  rcases ascending_double valid type with ⟨red, blue, -, flag⟩
  have wellFormed := wellFormed_of_isValid valid
  have sizes := blues_twentyOne valid type many
  have few : (bluesOf bet.vch).length.choose 2 ≤ 36 :=
    Nat.choose_le_choose 2 sizes.2
  have some : 0 < (bluesOf bet.vch).length.choose 2 :=
    Nat.choose_pos sizes.1
  rcases getTotalBerMulity_eq flag red.length_le blue.length_le with
    ⟨total, counted, value⟩
  rw [many, countedTickets, if_neg (by decide)] at value
  have virtual : bet.getTotalBer = .ok total := by
    rw [CBet.getTotalBer, type]
    exact counted
  have divisor :
      total.toInt64.toInt = -1692 * (bluesOf bet.vch).length.choose 2 := by
    rw [Int32.toInt_toInt64, value]
  have nonzero : total.toInt64 ≠ 0 := by
    intro isZero
    rw [isZero] at divisor
    have zero : (0 : Int64).toInt = 0 := by decide
    omega
  have notMinus : total.toInt64 ≠ -1 := by
    intro isMinus
    rw [isMinus] at divisor
    have minus : (-1 : Int64).toInt = -1 := by decide
    omega
  have quotient :
      divide bet.nValue total.toInt64 = .ok (bet.nValue / total.toInt64) := by
    rw [divide, if_neg]
    · rfl
    · rintro (isZero | ⟨-, isMinus⟩)
      · exact nonzero isZero
      · exact notMinus isMinus
  have hits :
      luckyCount (redPart bet.vch) (luckyReds (stars .typeMulilt)) = 5 := by
    rw [(redHits_eq valid type drawn).1,
      luckyCount_twentyOne red many drawn.reds.1 drawn.redRange,
      drawn.reds.2]
  refine ⟨bet.nValue / total.toInt64, ?_, ?_⟩
  · rw [Int64.toInt_div_of_ne_right _ _ notMinus, divisor]
  · have created :=
      createRewardMapMulity_eq wellFormed type (hasFlag_of_drawn drawn)
        virtual quotient (by omega) (by omega)
    have isPrepared :
        prepared stars bet =
          { CBet.splitSelectNum bet with vLuckyStar := stars .typeMulilt } := by
      simp only [prepared, type]
    rw [isPrepared]
    refine ⟨_, createRewardMap_of_rewardMap
      ((rewardMapByType_typeMulilt ?_).trans created), rfl⟩
    exact (splitSelectNum_same bet).1.trans type

theorem matchesEnumeration_twentyOne_iff :
    MatchesEnumeration stars bet ↔
      bet.nValue.toInt.natAbs < 1692 * (bluesOf bet.vch).length.choose 2 := by
  have sizes := blues_twentyOne valid type many
  have few : (bluesOf bet.vch).length.choose 2 ≤ 36 :=
    Nat.choose_le_choose 2 sizes.2
  have some : 0 < (bluesOf bet.vch).length.choose 2 :=
    Nat.choose_pos sizes.1
  have tickets :
      enumeratedTickets bet.vch bet.type =
        20349 * (bluesOf bet.vch).length.choose 2 := by
    rw [enumeratedTickets_eq valid, type, ticketCount, many]
    rfl
  have wins : ∀ rt, enumeratedWins (stars bet.type) bet.vch bet.type rt =
      winningTickets (stars .typeMulilt) bet.vch .typeMulilt rt := by
    intro rt
    rw [enumeratedWins_eq valid drawn rt, type]
  have bounded :
      ∀ rt, winningTickets (stars .typeMulilt) bet.vch .typeMulilt rt ≤
        732564 := by
    intro rt
    have bound := enumeratedWins_le (stars bet.type) bet.vch bet.type rt
    rw [wins, tickets] at bound
    omega
  have count :
      ∀ rt, (Int32.ofNat (winningTickets (stars .typeMulilt) bet.vch
          .typeMulilt rt)).toInt =
        winningTickets (stars .typeMulilt) bet.vch .typeMulilt rt := by
    intro rt
    have bound := bounded rt
    exact Int32.toInt_ofNat_of_lt (by omega)
  rcases createRewardMap_twentyOne valid type drawn many with
    ⟨npeerBetValue, isValue, ready, created, isMap⟩
  have quotient :
      npeerBetValue.toInt.natAbs =
        bet.nValue.toInt.natAbs /
          (1692 * (bluesOf bet.vch).length.choose 2) := by
    rw [isValue, Int.natAbs_tdiv, Int.natAbs_mul, Int.natAbs_natCast]
    rfl
  rw [← tdiv_eq_tdiv_iff some, ← isValue]
  constructor
  · rintro ⟨other, otherCreated, pays⟩
    rw [created, Except.ok.injEq] at otherCreated
    have redHits :=
      luckyCount_twentyOne (ascending_double valid type).1 many drawn.reds.1
        drawn.redRange
    rw [drawn.reds.2] at redHits
    rcases few_wins_twentyOne sizes.1 sizes.2
        (blueHits_eq valid type drawn).2 with ⟨rt, positive, atMost⟩
    rw [← many, ← redHits, ← winningTickets_eq_doubleWins valid type drawn]
      at positive atMost
    have paid := pays rt
    have isPositive :
        0 < Int32.ofNat
          (winningTickets (stars .typeMulilt) bet.vch .typeMulilt rt) := by
      rw [Int32.lt_iff_toInt_lt, count]
      simpa using positive
    rw [← otherCreated, isMap, rewardMapOf, if_pos isPositive] at paid
    have product := paid.2
    have priceSmall : npeerBetValue.toInt.natAbs ≤ 2 ^ 63 / 1692 := by
      have lower := bet.nValue.le_toInt
      have upper := bet.nValue.toInt_lt
      rw [quotient]
      exact (Nat.div_le_div_left (by omega) (by omega)).trans
        (Nat.div_le_div_right (by omega))
    have inRange :
        (winningTickets (stars .typeMulilt) bet.vch .typeMulilt rt *
          npeerBetValue.toInt).natAbs < 2 ^ 63 := by
      rw [Int.natAbs_mul, Int.natAbs_natCast]
      exact lt_of_le_of_lt (Nat.mul_le_mul atMost priceSmall) (by decide)
    rw [toInt_mul_of_bounds (by rw [Int32.toInt_toInt64, count]; omega)
      (by rw [Int32.toInt_toInt64, count]; omega), Int32.toInt_toInt64, count,
      wins, tickets, Int.mul_comm] at product
    push_cast at product
    exact Int.eq_of_mul_eq_mul_right (by omega) product
  · intro same
    have below := same
    rw [isValue, tdiv_eq_tdiv_iff some] at below
    have zeroValue : npeerBetValue.toInt = 0 :=
      Int.natAbs_eq_zero.mp (quotient.trans (Nat.div_eq_of_lt below))
    have zero : npeerBetValue = 0 := Int64.toInt_inj.mp zeroValue
    refine ⟨ready, created, ?_⟩
    intro rt
    rw [isMap, rewardMapOf, wins, tickets]
    push_cast
    rw [← same, zeroValue, zero]
    by_cases positive :
        0 < winningTickets (stars .typeMulilt) bet.vch .typeMulilt rt
    · have isPositive :
          0 < Int32.ofNat
            (winningTickets (stars .typeMulilt) bet.vch .typeMulilt rt) := by
        rw [Int32.lt_iff_toInt_lt, count]
        simpa using positive
      rw [if_pos isPositive]
      refine ⟨positive, ?_⟩
      simp
    · have notPositive :
          ¬ 0 < Int32.ofNat
            (winningTickets (stars .typeMulilt) bet.vch .typeMulilt rt) := by
        rw [Int32.lt_iff_toInt_lt, count]
        simpa using positive
      rw [if_neg notPositive]
      exact Nat.eq_zero_of_not_pos positive

end TwentyOne

/--
The prize map of an accepted bet is the enumerated one, except for a bet on
twenty-one red numbers that pays at least the number it is divided by.
-/
theorem matchesEnumeration_iff
    (stars : BetType → List UInt8) (bet : CBet)
    (drawn : DrawnNumbers stars) (valid : bet.isValid = .ok true) :
    MatchesEnumeration stars bet ↔
      (bet.type = .typeMulilt →
        (redPart bet.vch).length ≤ 20 ∨
        bet.nValue.toInt.natAbs <
          1692 * (bluesOf bet.vch).length.choose 2) := by
  by_cases fewReds : FewReds bet
  · exact iff_of_true (matchesEnumeration_of_fewReds valid drawn fewReds)
      fun type => Or.inl (fewReds type)
  · rw [FewReds, Classical.not_imp] at fewReds
    rcases fewReds with ⟨type, more⟩
    have atMost := (ascending_double valid type).1.length_le
    rw [matchesEnumeration_twentyOne_iff valid type drawn (by omega)]
    constructor
    · exact fun below _ => Or.inr below
    · intro condition
      exact (condition type).resolve_left more

/-- The lucky numbers of a draw. -/
def firstNumbers : BetType → List UInt8
  | .type15_6 => [1, 2, 3, 4, 5, 6]
  | .typeMulilt => [1, 2, 3, 4, 5, gSplitFlag, 1, 2]

theorem drawn_firstNumbers : DrawnNumbers firstNumbers := by
  constructor <;> decide +kernel

theorem widestReds_matchesEnumeration :
    MatchesEnumeration firstNumbers
      (parsedBet .typeMulilt [] widestReds 5000000000) :=
  (matchesEnumeration_iff firstNumbers
    (parsedBet .typeMulilt [] widestReds 5000000000) drawn_firstNumbers
    (by decide)).mpr (fun _ => Or.inl (by decide))

/-- With twenty-one red numbers the winning tickets get a negative value. -/
theorem tooManyReds_not_matchesEnumeration :
    (parsedBet .typeMulilt [] tooManyReds 1000000).isValid = .ok true ∧
      ¬ MatchesEnumeration firstNumbers
        (parsedBet .typeMulilt [] tooManyReds 1000000) := by
  have valid :
      (parsedBet .typeMulilt [] tooManyReds 1000000).isValid = .ok true := by
    decide
  have many :
      (redPart (parsedBet .typeMulilt [] tooManyReds 1000000).vch).length =
        21 := by
    decide
  refine ⟨valid, ?_⟩
  rw [matchesEnumeration_twentyOne_iff valid rfl drawn_firstNumbers many]
  decide

end DSValue.Lotto.Enumeration

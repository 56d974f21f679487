import DSValue.Lotto.Tickets

/-!
# The grammar of bets

A bet on six numbers is a strictly increasing choice of six to fifteen
numbers up to fifteen.  A double bet is a strictly increasing choice of at
least five red numbers up to twenty, a split flag, and a strictly increasing
choice of at least two blue numbers up to ten.  Both pay more than the minimum
for each of their tickets.

`CLotto::IsValid` accepts exactly the bets on six numbers.  For double bets
its bounds are one too high, and with twenty-one red numbers the tickets are
counted through a factorial that overflows.
-/

namespace DSValue.Lotto.Validity

open DSValue.Lib
open DSValue.Core.Serialize
open DSValue.Core.Transaction
open DSValue.Script.Scan
open DSValue.Lotto.Bet
open DSValue.Lotto.Tickets

/-! ## Strictly increasing numbers -/

/-- Strictly increasing numbers from one to a limit. -/
def Ascending (limit : Nat) (numbers : List UInt8) : Prop :=
  numbers.Pairwise (fun left right => left < right) ∧
    ∀ no ∈ numbers, 1 ≤ no.toNat ∧ no.toNat ≤ limit

instance (limit : Nat) (numbers : List UInt8) :
    Decidable (Ascending limit numbers) :=
  inferInstanceAs (Decidable (_ ∧ _))

theorem Ascending.length_le
    {limit : Nat} {numbers : List UInt8} (ascending : Ascending limit numbers) :
    numbers.length ≤ limit :=
  length_le_of_increasing ascending.1 ascending.2

theorem Ascending.mono
    {limit larger : Nat} {numbers : List UInt8}
    (ascending : Ascending limit numbers) (le : limit ≤ larger) :
    Ascending larger numbers := by
  refine ⟨ascending.1, ?_⟩
  intro no member
  have bounds := ascending.2 no member
  omega

/-- Numbers that reach one above the limit hold it. -/
theorem ascending_succ_iff (limit : Nat) (numbers : List UInt8) :
    Ascending (limit + 1) numbers ↔
      Ascending limit numbers ∨
        Ascending (limit + 1) numbers ∧
          ∃ no ∈ numbers, no.toNat = limit + 1 := by
  constructor
  · intro ascending
    by_cases reaches : ∃ no ∈ numbers, no.toNat = limit + 1
    · exact Or.inr ⟨ascending, reaches⟩
    · refine Or.inl ⟨ascending.1, ?_⟩
      intro no member
      have bounds := ascending.2 no member
      have below : no.toNat ≠ limit + 1 := fun equal =>
        reaches ⟨no, member, equal⟩
      omega
  · rintro (ascending | ⟨ascending, -⟩)
    · exact ascending.mono (Nat.le_succ limit)
    · exact ascending

theorem hasAdjacentEqual_of_increasing
    {bytes : List UInt8}
    (increasing : bytes.Pairwise (fun left right => left < right)) :
    hasAdjacentEqual bytes = false := by
  induction bytes with
  | nil => rfl
  | cons first rest inductionHypothesis =>
      rcases List.pairwise_cons.mp increasing with ⟨least, later⟩
      cases rest with
      | nil => rfl
      | cons second others =>
          have below := least second List.mem_cons_self
          rw [hasAdjacentEqual, inductionHypothesis later, Bool.or_false]
          exact decide_eq_false (UInt8.ne_of_lt below)

/-- Sorted without equal neighbours means strictly increasing. -/
theorem sorted_distinct_iff (bytes : List UInt8) :
    (bytes = sortBytes bytes ∧ hasAdjacentEqual bytes = false) ↔
      bytes.Pairwise (fun left right => left < right) := by
  constructor
  · rintro ⟨sorted, distinct⟩
    apply pairwise_lt_of_sorted _ distinct
    rw [sorted]
    exact List.pairwise_insertionSort _ bytes
  · intro increasing
    refine ⟨?_, hasAdjacentEqual_of_increasing increasing⟩
    have ordered :
        bytes.Pairwise (fun left right => left ≤ right) :=
      increasing.imp fun below => UInt8.le_of_lt below
    exact ordered.insertionSort_eq.symm

/-- The range checks of the source. -/
theorem any_bounds_iff (limit : UInt8) (bytes : List UInt8) :
    ((bytes.any fun no => limit < no) = false ∧
        (bytes.any fun no => no < 1) = false) ↔
      ∀ no ∈ bytes, 1 ≤ no.toNat ∧ no.toNat ≤ limit.toNat := by
  simp only [List.any_eq_false, decide_eq_true_eq, UInt8.not_lt,
    UInt8.le_iff_toNat_le]
  constructor
  · rintro ⟨high, low⟩ no member
    exact ⟨low no member, high no member⟩
  · intro bounds
    exact ⟨fun no member => (bounds no member).2,
      fun no member => (bounds no member).1⟩

/-! ## Counting and paying for tickets -/

/-- The tickets of a double selection. -/
def doubleTicketCount (reds blues : Nat) : Int :=
  reds.choose 5 * blues.choose 2

/--
The tickets that `CBetMulity::getTotalBer` counts.  With twenty-one red
numbers the factorial overflows.
-/
def countedTickets (reds blues : Nat) : Int :=
  if reds ≤ 20 then doubleTicketCount reds blues
  else -1692 * blues.choose 2

theorem countedTickets_of_few {reds : Nat} (few : reds ≤ 20) (blues : Nat) :
    countedTickets reds blues = doubleTicketCount reds blues := by
  rw [countedTickets, if_pos few]

theorem getTotalBerMulity_eq
    {bet : CBet} {blue : List UInt8} (flag : bluePart bet.vch = some blue)
    (redFew : (redPart bet.vch).length ≤ 21) (blueFew : blue.length ≤ 11) :
    ∃ total, bet.getTotalBerMulity = .ok total ∧
      total.toInt = countedTickets (redPart bet.vch).length blue.length := by
  have blues :
      mselectN (Int32.ofNat blue.length) 2 =
        .ok (Int32.ofNat (blue.length.choose 2)) :=
    mselectN_eq_choose (by omega) (show 2 ≤ 6 by decide)
  have blueBound : blue.length.choose 2 ≤ 55 :=
    Nat.choose_le_choose 2 blueFew
  have blueValue :
      (Int32.ofNat (blue.length.choose 2)).toInt = blue.length.choose 2 :=
    Int32.toInt_ofNat_of_lt (by omega)
  by_cases few : (redPart bet.vch).length ≤ 20
  · have reds :
        mselectN (Int32.ofNat (redPart bet.vch).length) 5 =
          .ok (Int32.ofNat ((redPart bet.vch).length.choose 5)) :=
      mselectN_eq_choose few (show 5 ≤ 6 by decide)
    have redBound : (redPart bet.vch).length.choose 5 ≤ 15504 :=
      Nat.choose_le_choose 5 few
    have product := Nat.mul_le_mul redBound blueBound
    refine ⟨Int32.ofNat
      ((redPart bet.vch).length.choose 5 * blue.length.choose 2), ?_, ?_⟩
    · simp only [CBet.getTotalBerMulity, flag, reds, blues, bind, Except.bind,
        pure, Except.pure, Int32.ofNat_mul]
    · rw [Int32.toInt_ofNat_of_lt (by omega), countedTickets, if_pos few,
        doubleTicketCount, Int.natCast_mul]
  · have many : (redPart bet.vch).length = 21 := by omega
    have reds : mselectN (Int32.ofNat 21) 5 = .ok (-1692) := by
      decide
    have redValue : (-1692 : Int32).toInt = -1692 := by decide
    refine ⟨-1692 * Int32.ofNat (blue.length.choose 2), ?_, ?_⟩
    · simp only [CBet.getTotalBerMulity, flag, many, reds, blues, bind,
        Except.bind, pure, Except.pure]
    · rw [countedTickets, if_neg few, Int32.toInt_mul, redValue, blueValue]
      exact Int.bmod_eq_of_le (by simp; omega) (by simp; omega)

theorem minBet_mul_lt_iff (total : Int32) (nValue : Int64) :
    nMinBet * total.toInt64 < nValue ↔
      100000 * total.toInt < nValue.toInt := by
  have minimum : nMinBet.toInt = 100000 := by decide
  have lower := total.le_toInt
  have upper := total.toInt_lt
  rw [Int64.lt_iff_toInt_lt, toInt_mul_of_bounds, minimum,
    Int32.toInt_toInt64]
  · rw [minimum, Int32.toInt_toInt64]
    omega
  · rw [minimum, Int32.toInt_toInt64]
    omega

theorem coversMinBet_iff
    {bet : CBet} {total : Int32} (counted : bet.getTotalBer = .ok total) :
    bet.coversMinBet = .ok true ↔
      100000 * total.toInt < bet.nValue.toInt := by
  rw [CBet.coversMinBet, counted, ← minBet_mul_lt_iff]
  simp [bind, Except.bind, pure, Except.pure]

/-! ## The checks of the source -/

/-- Bets on six numbers. -/
def SixGrammar (numbers : List UInt8) (stake : Int) : Prop :=
  6 ≤ numbers.length ∧ numbers.length ≤ 15 ∧ Ascending 15 numbers ∧
    100000 * (numbers.length.choose 6 : Int) < stake

/-- Double bets with limits and a number of tickets. -/
def DoubleGrammar
    (redLimit blueLimit : Nat) (tickets : Nat → Nat → Int)
    (numbers : List UInt8) (stake : Int) : Prop :=
  ∃ reds blues,
    numbers = reds ++ gSplitFlag :: blues ∧
    5 ≤ reds.length ∧ Ascending redLimit reds ∧
    2 ≤ blues.length ∧ Ascending blueLimit blues ∧
    100000 * tickets reds.length blues.length < stake

theorem isValid15_6_iff
    {bet : CBet} (type : bet.type = .type15_6) :
    bet.isValid15_6 = .ok true ↔ SixGrammar bet.vch bet.nValue.toInt := by
  have covers :
      bet.vch.length ≤ 15 →
        (bet.coversMinBet = .ok true ↔
          100000 * (bet.vch.length.choose 6 : Int) < bet.nValue.toInt) := by
    intro few
    have bound : bet.vch.length.choose 6 ≤ 5005 :=
      Nat.choose_le_choose 6 few
    have counted :
        bet.getTotalBer = .ok (Int32.ofNat (bet.vch.length.choose 6)) := by
      rw [CBet.getTotalBer, type]
      exact mselectN_eq_choose (by omega) (show 6 ≤ 6 from le_rfl)
    rw [coversMinBet_iff counted, Int32.toInt_ofNat_of_lt (by omega)]
  have bounds := any_bounds_iff 15 bet.vch
  have order := sorted_distinct_iff bet.vch
  simp only [CBet.isValid15_6, guard_eq_ok, not_or, not_lt, Bool.not_eq_true,
    not_not]
  constructor
  · rintro ⟨⟨few, many⟩, high, low, sorted, distinct, covered⟩
    exact ⟨many, few,
      ⟨order.mp ⟨sorted, distinct⟩, bounds.mp ⟨high, low⟩⟩,
      (covers few).mp covered⟩
  · rintro ⟨many, few, ascending, paid⟩
    have checked := bounds.mpr ascending.2
    have ordered := order.mpr ascending.1
    exact ⟨⟨few, many⟩, checked.1, checked.2, ordered.1, ordered.2,
      (covers few).mpr paid⟩

/-- No number is a split flag. -/
theorem Ascending.ne_flag
    {limit : Nat} {numbers : List UInt8} (ascending : Ascending limit numbers)
    (small : limit < 255) : ∀ no ∈ numbers, no ≠ gSplitFlag := by
  rintro no member rfl
  have bounds := ascending.2 gSplitFlag member
  have value : gSplitFlag.toNat = 255 := by decide
  omega

/-- `std::unique` from the split flag on. -/
theorem hasAdjacentEqual_flag
    {blue : List UInt8} (away : ∀ no ∈ blue, no ≠ gSplitFlag) :
    hasAdjacentEqual (gSplitFlag :: blue) = hasAdjacentEqual blue := by
  cases blue with
  | nil => rfl
  | cons first rest =>
      have differs : gSplitFlag ≠ first :=
        (away first List.mem_cons_self).symm
      rw [hasAdjacentEqual, decide_eq_false differs, Bool.false_or]

theorem isValidMulity_iff
    {bet : CBet} (type : bet.type = .typeMulilt) :
    bet.isValidMulity = .ok true ↔
      bet.vch.length ≤ 31 ∧
        DoubleGrammar 21 11 countedTickets bet.vch bet.nValue.toInt := by
  have covers :
      ∀ blue, bluePart bet.vch = some blue →
        (redPart bet.vch).length ≤ 21 → blue.length ≤ 11 →
        (bet.coversMinBet = .ok true ↔
          100000 * countedTickets (redPart bet.vch).length blue.length <
            bet.nValue.toInt) := by
    intro blue flag redFew blueFew
    rcases getTotalBerMulity_eq flag redFew blueFew with
      ⟨total, counted, value⟩
    have virtual : bet.getTotalBer = .ok total := by
      rw [CBet.getTotalBer, type]
      exact counted
    rw [coversMinBet_iff virtual, value]
  constructor
  · intro valid
    simp only [CBet.isValidMulity, guard_eq_ok] at valid
    rcases valid with ⟨size, checks⟩
    cases flag : bluePart bet.vch with
    | none =>
        rw [flag] at checks
        cases checks
    | some blue =>
        simp only [flag, guard_eq_ok, not_lt, not_or, not_not,
          Bool.not_eq_true] at checks
        rcases checks with
          ⟨redLong, blueLong, redHigh, redLow, blueHigh, blueLow, ⟨redEqual,
            blueEqual⟩, redSorted, blueSorted, covered⟩
        have parts := parts_of_bluePart flag
        have redBounds :=
          (any_bounds_iff 21 (redPart bet.vch)).mp ⟨redHigh, redLow⟩
        have blueBounds := (any_bounds_iff 11 blue).mp ⟨blueHigh, blueLow⟩
        have away : ∀ no ∈ blue, no ≠ gSplitFlag := by
          rintro no member rfl
          exact absurd (blueBounds gSplitFlag member).2 (by decide)
        rw [hasAdjacentEqual_flag away] at blueEqual
        have red : Ascending 21 (redPart bet.vch) :=
          ⟨(sorted_distinct_iff _).mp ⟨redSorted, redEqual⟩, redBounds⟩
        have blueAscending : Ascending 11 blue :=
          ⟨(sorted_distinct_iff _).mp ⟨blueSorted, blueEqual⟩, blueBounds⟩
        exact ⟨by omega, redPart bet.vch, blue, parts.1, redLong, red,
          blueLong, blueAscending,
          (covers blue flag red.length_le blueAscending.length_le).mp covered⟩
  · rintro ⟨size, reds, blue, parts, redLong, red, blueLong, blueAscending,
      paid⟩
    have away := red.ne_flag (by decide)
    have isRed : redPart bet.vch = reds := by
      rw [parts, redPart_of_flag away]
    have flag : bluePart bet.vch = some blue := by
      rw [parts, bluePart_of_flag away]
    have length : bet.vch.length = reds.length + (blue.length + 1) := by
      rw [parts, List.length_append, List.length_cons]
    have redChecked := (any_bounds_iff 21 reds).mpr red.2
    have blueChecked := (any_bounds_iff 11 blue).mpr blueAscending.2
    have redOrder := (sorted_distinct_iff reds).mpr red.1
    have blueOrder := (sorted_distinct_iff blue).mpr blueAscending.1
    rw [← hasAdjacentEqual_flag (blueAscending.ne_flag (by decide))]
      at blueOrder
    have covered :=
      (covers blue flag (by rw [isRed]; exact red.length_le)
        blueAscending.length_le).mpr (by rwa [isRed])
    simp only [CBet.isValidMulity, guard_eq_ok, flag, isRed, not_lt, not_or,
      not_not, Bool.not_eq_true]
    exact ⟨⟨by omega, size⟩, redLong, blueLong,
      redChecked.1, redChecked.2, blueChecked.1, blueChecked.2,
      ⟨redOrder.2, blueOrder.2⟩, redOrder.1, blueOrder.1, covered⟩

/-! ## Bet data -/

/-- The numbers behind a type byte and the twenty address bytes. -/
def Behind (typeByte : UInt8) (data numbers : List UInt8) : Prop :=
  ∃ address, address.length = ADRESSLEN ∧
    data = typeByte :: (address ++ numbers)

theorem Behind.unique
    {typeByte : UInt8} {data first second : List UInt8}
    (behindFirst : Behind typeByte data first)
    (behindSecond : Behind typeByte data second) : first = second := by
  rcases behindFirst with ⟨left, leftLength, rfl⟩
  rcases behindSecond with ⟨right, rightLength, same⟩
  rw [List.cons.injEq] at same
  exact (List.append_inj same.2 (leftLength.trans rightLength.symm)).2

theorem behind_of_length
    {typeByte : UInt8} {data : List UInt8} (head : data.head? = some typeByte)
    (long : ADRESSLEN < data.length) :
    Behind typeByte data (data.drop (1 + ADRESSLEN)) := by
  cases data with
  | nil => cases head
  | cons first rest =>
      cases head
      rw [List.length_cons] at long
      refine ⟨rest.take ADRESSLEN, List.length_take_of_le (by omega), ?_⟩
      rw [Nat.add_comm, List.drop_succ_cons, List.take_append_drop]

/-- The object that `CLotto::IsValid` builds. -/
def parsedBet
    (type : BetType) (data numbers : List UInt8) (nValue : Int64) : CBet where
  type := type
  address := uint160OfVch ((data.drop 1).take ADRESSLEN)
  vch := numbers
  nValue := nValue
  vRed := []
  vBlue := []
  vLuckyStar := []
  rewardmap := fun _ => none

theorem ofBetData_behind
    {typeByte : UInt8} {data numbers : List UInt8} {type : BetType}
    (behind : Behind typeByte data numbers) (nValue : Int64)
    (isType : getType data = .ok type) :
    CBet.ofBetData data nValue = .ok (parsedBet type data numbers nValue) := by
  rcases behind with ⟨address, length, rfl⟩
  have long :
      (typeByte :: (address ++ numbers)).length =
        ADRESSLEN + 1 + numbers.length := by
    rw [List.length_cons, List.length_append, length]
    omega
  have notShort :
      ¬ (typeByte :: (address ++ numbers)).length < ADRESSLEN := by omega
  have notEqual :
      ¬ (typeByte :: (address ++ numbers)).length = ADRESSLEN := by omega
  have rest :
      (typeByte :: (address ++ numbers)).drop (1 + ADRESSLEN) = numbers := by
    rw [Nat.add_comm, List.drop_succ_cons, ← length, List.drop_left]
  simp only [CBet.ofBetData, isType, getAddr, getSelectV, if_neg notShort,
    if_neg notEqual, rest, bind, Except.bind, pure, Except.pure, parsedBet]

theorem isValid_behind
    {typeByte : UInt8} {data numbers : List UInt8} {type : BetType}
    (behind : Behind typeByte data numbers) (nValue : Int64)
    (isType : getType data = .ok type) :
    isValid data nValue = (parsedBet type data numbers nValue).isValid := by
  rw [isValid, ofBetData_behind behind nValue isType]
  rfl

theorem getType_behind_six
    {data numbers : List UInt8} (behind : Behind 0 data numbers) :
    getType data = .ok .type15_6 := by
  rcases behind with ⟨address, -, rfl⟩
  rfl

theorem getType_behind_double
    {data numbers : List UInt8} (behind : Behind 1 data numbers) :
    getType data = .ok .typeMulilt := by
  rcases behind with ⟨address, -, rfl⟩
  rfl

theorem isValid_six_iff
    {data numbers : List UInt8} (behind : Behind 0 data numbers)
    (nValue : Int64) :
    isValid data nValue = .ok true ↔ SixGrammar numbers nValue.toInt := by
  rw [isValid_behind behind nValue (getType_behind_six behind)]
  exact isValid15_6_iff rfl

theorem isValid_double_iff
    {data numbers : List UInt8} (behind : Behind 1 data numbers)
    (nValue : Int64) :
    isValid data nValue = .ok true ↔
      numbers.length ≤ 31 ∧
        DoubleGrammar 21 11 countedTickets numbers nValue.toInt := by
  rw [isValid_behind behind nValue (getType_behind_double behind)]
  exact isValidMulity_iff rfl

/-- Without numbers behind the address no bet is accepted. -/
theorem not_isValid_of_short
    {data : List UInt8} (nValue : Int64) (short : data.length ≤ ADRESSLEN) :
    isValid data nValue ≠ .ok true := by
  intro valid
  rw [isValid, bind_eq_ok] at valid
  rcases valid with ⟨bet, parsed, valid⟩
  rw [CBet.ofBetData] at parsed
  simp only [bind_eq_ok] at parsed
  rcases parsed with ⟨type, -, address, -, vch, selected, built⟩
  cases built
  rw [getSelectV] at selected
  by_cases isShort : data.length < ADRESSLEN
  · rw [if_pos isShort] at selected
    cases selected
    cases type <;>
      simp [CBet.isValid, CBet.isValid15_6, CBet.isValidMulity, pure,
        Except.pure] at valid
  · rw [if_neg isShort, if_pos (by omega)] at selected
    cases selected

/-! ## The grammar -/

/-- The bets of the game, with their type byte and address. -/
def Grammar (data : List UInt8) (stake : Int) : Prop :=
  (∃ numbers, Behind 0 data numbers ∧ SixGrammar numbers stake) ∨
  ∃ numbers, Behind 1 data numbers ∧
    DoubleGrammar 20 10 doubleTicketCount numbers stake

/--
Double bets with the red number twenty-one or the blue number eleven that are
otherwise in order, and pay for the tickets that are counted.
-/
def OneAbove (data : List UInt8) (stake : Int) : Prop :=
  ∃ reds blues,
    Behind 1 data (reds ++ gSplitFlag :: blues) ∧
    5 ≤ reds.length ∧ Ascending 21 reds ∧
    2 ≤ blues.length ∧ Ascending 11 blues ∧
    reds.length + blues.length ≤ 30 ∧
    (21 ∈ reds ∨ 11 ∈ blues) ∧
    100000 * countedTickets reds.length blues.length < stake

theorem Behind.typeByte_eq
    {first second : UInt8} {data left right : List UInt8}
    (behindFirst : Behind first data left)
    (behindSecond : Behind second data right) : first = second := by
  rcases behindFirst with ⟨address, -, rfl⟩
  rcases behindSecond with ⟨other, -, same⟩
  rw [List.cons.injEq] at same
  exact same.1

theorem grammar_six_iff
    {data numbers : List UInt8} (behind : Behind 0 data numbers)
    (stake : Int) : Grammar data stake ↔ SixGrammar numbers stake := by
  constructor
  · rintro (⟨other, behindOther, six⟩ | ⟨other, behindOther, -⟩)
    · rwa [behind.unique behindOther]
    · exact absurd (behind.typeByte_eq behindOther) (by decide)
  · intro six
    exact Or.inl ⟨numbers, behind, six⟩

theorem grammar_double_iff
    {data numbers : List UInt8} (behind : Behind 1 data numbers)
    (stake : Int) :
    Grammar data stake ↔
      DoubleGrammar 20 10 doubleTicketCount numbers stake := by
  constructor
  · rintro (⟨other, behindOther, -⟩ | ⟨other, behindOther, double⟩)
    · exact absurd (behind.typeByte_eq behindOther) (by decide)
    · rwa [behind.unique behindOther]
  · intro double
    exact Or.inr ⟨numbers, behind, double⟩

/-- The double bets of the game are accepted. -/
theorem accepts_of_doubleGrammar
    {numbers : List UInt8} {stake : Int}
    (double : DoubleGrammar 20 10 doubleTicketCount numbers stake) :
    numbers.length ≤ 31 ∧
      DoubleGrammar 21 11 countedTickets numbers stake := by
  rcases double with
    ⟨reds, blues, parts, redLong, red, blueLong, blue, paid⟩
  have redFew := red.length_le
  have blueFew := blue.length_le
  refine ⟨?_, reds, blues, parts, redLong, red.mono (by decide), blueLong,
    blue.mono (by decide), ?_⟩
  · rw [parts, List.length_append, List.length_cons]
    omega
  · rwa [countedTickets_of_few redFew]

/-- What else is accepted has a number one above its limit. -/
theorem oneAbove_iff
    {data numbers : List UInt8} (behind : Behind 1 data numbers)
    (stake : Int) :
    OneAbove data stake ↔
      (numbers.length ≤ 31 ∧
        DoubleGrammar 21 11 countedTickets numbers stake) ∧
      ¬ DoubleGrammar 20 10 doubleTicketCount numbers stake := by
  constructor
  · rintro ⟨reds, blues, behindParts, redLong, red, blueLong, blue, short,
      above, paid⟩
    have parts := behind.unique behindParts
    refine ⟨⟨?_, reds, blues, parts, redLong, red, blueLong, blue, paid⟩, ?_⟩
    · rw [parts, List.length_append, List.length_cons]
      omega
    · rintro ⟨otherReds, otherBlues, otherParts, -, otherRed, -, otherBlue, -⟩
      have away := red.ne_flag (by decide)
      have otherAway := otherRed.ne_flag (by decide)
      have isRed : redPart numbers = reds := by
        rw [parts, redPart_of_flag away]
      have isBlue : bluePart numbers = some blues := by
        rw [parts, bluePart_of_flag away]
      have sameReds : reds = otherReds := by
        rw [← isRed, otherParts, redPart_of_flag otherAway]
      have sameBlues : blues = otherBlues := by
        rw [← Option.some.injEq, ← isBlue, otherParts,
          bluePart_of_flag otherAway]
      rcases above with inReds | inBlues
      · rw [sameReds] at inReds
        exact absurd (otherRed.2 21 inReds).2 (by decide)
      · rw [sameBlues] at inBlues
        exact absurd (otherBlue.2 11 inBlues).2 (by decide)
  · rintro ⟨⟨size, reds, blues, parts, redLong, red, blueLong, blue, paid⟩,
      notGame⟩
    have length : numbers.length = reds.length + (blues.length + 1) := by
      rw [parts, List.length_append, List.length_cons]
    rw [parts] at behind
    refine ⟨reds, blues, behind, redLong, red, blueLong, blue, by omega, ?_,
      paid⟩
    rcases (ascending_succ_iff 20 reds).mp red with
      inRange | ⟨-, no, member, value⟩
    · rcases (ascending_succ_iff 10 blues).mp blue with
        blueInRange | ⟨-, no, member, value⟩
      · rw [countedTickets_of_few inRange.length_le] at paid
        exact absurd ⟨reds, blues, parts, redLong, inRange, blueLong,
          blueInRange, paid⟩ notGame
      · have isEleven : no = 11 := UInt8.toNat_inj.mp value
        rw [isEleven] at member
        exact Or.inr member
    · have isTwentyOne : no = 21 := UInt8.toNat_inj.mp value
      rw [isTwentyOne] at member
      exact Or.inl member

/--
`CLotto::IsValid` accepts exactly the grammar, except for double bets with a
number one above its limit.
-/
theorem isValid_grammar_iff
    (data : List UInt8) (nValue : Int64)
    (typed : data.head? = some 0 ∨ data.head? = some 1) :
    (isValid data nValue = .ok true ↔ Grammar data nValue.toInt) ↔
      ¬ OneAbove data nValue.toInt := by
  by_cases short : data.length ≤ ADRESSLEN
  · have rejected := not_isValid_of_short nValue short
    have outside : ∀ typeByte numbers, ¬ Behind typeByte data numbers := by
      rintro typeByte numbers ⟨address, length, rfl⟩
      rw [List.length_cons, List.length_append] at short
      omega
    have notGrammar : ¬ Grammar data nValue.toInt := by
      rintro (⟨numbers, behind, -⟩ | ⟨numbers, behind, -⟩)
      · exact outside 0 numbers behind
      · exact outside 1 numbers behind
    have notAbove : ¬ OneAbove data nValue.toInt := by
      rintro ⟨reds, blues, behind, -⟩
      exact outside 1 _ behind
    exact ⟨fun _ => notAbove, fun _ => iff_of_false rejected notGrammar⟩
  · rcases typed with six | double
    · have behind := behind_of_length six (by omega)
      have notAbove : ¬ OneAbove data nValue.toInt := by
        rintro ⟨reds, blues, behindOther, -⟩
        exact absurd (behind.typeByte_eq behindOther) (by decide)
      rw [isValid_six_iff behind, grammar_six_iff behind]
      exact ⟨fun _ => notAbove, fun _ => Iff.rfl⟩
    · have behind := behind_of_length double (by omega)
      rw [isValid_double_iff behind, grammar_double_iff behind,
        oneAbove_iff behind]
      constructor
      · rintro same ⟨accepted, notGame⟩
        exact notGame (same.mp accepted)
      · intro notAbove
        refine ⟨fun accepted => ?_, accepts_of_doubleGrammar⟩
        by_contra notGame
        exact notAbove ⟨accepted, notGame⟩

/-- A bet with its type byte and an address. -/
def addressed (typeByte : UInt8) (numbers : List UInt8) : List UInt8 :=
  typeByte :: (List.replicate 20 7 ++ numbers)

theorem behind_addressed (typeByte : UInt8) (numbers : List UInt8) :
    Behind typeByte (addressed typeByte numbers) numbers :=
  ⟨List.replicate 20 7, rfl, rfl⟩

theorem single_double_ticket_in_grammar :
    isValid (addressed 1 [1, 2, 3, 4, 20, gSplitFlag, 6, 10]) 100001 =
        .ok true ∧
      Grammar (addressed 1 [1, 2, 3, 4, 20, gSplitFlag, 6, 10]) 100001 := by
  have behind := behind_addressed 1 [1, 2, 3, 4, 20, gSplitFlag, 6, 10]
  have game :
      DoubleGrammar 20 10 doubleTicketCount
        [1, 2, 3, 4, 20, gSplitFlag, 6, 10] 100001 :=
    ⟨[1, 2, 3, 4, 20], [6, 10], rfl, by decide, by decide +kernel, by decide,
      by decide +kernel, by decide +kernel⟩
  have notAbove :
      ¬ OneAbove (addressed 1 [1, 2, 3, 4, 20, gSplitFlag, 6, 10]) 100001 :=
    fun above => ((oneAbove_iff behind 100001).mp above).2 game
  have accepted :
      isValid (addressed 1 [1, 2, 3, 4, 20, gSplitFlag, 6, 10]) 100001 =
        .ok true := by
    decide
  exact ⟨accepted,
    ((isValid_grammar_iff _ 100001 (Or.inr rfl)).mpr notAbove).mp accepted⟩

/-- The red number twenty-one is accepted. -/
theorem twentyOne_not_in_grammar :
    ¬ (isValid (addressed 1 [1, 2, 3, 4, 21, gSplitFlag, 6, 7]) 200000 =
          .ok true ↔
        Grammar (addressed 1 [1, 2, 3, 4, 21, gSplitFlag, 6, 7]) 200000) := by
  have behind := behind_addressed 1 [1, 2, 3, 4, 21, gSplitFlag, 6, 7]
  have above :
      OneAbove (addressed 1 [1, 2, 3, 4, 21, gSplitFlag, 6, 7]) 200000 :=
    ⟨[1, 2, 3, 4, 21], [6, 7], behind, by decide, by decide +kernel,
      by decide, by decide +kernel, by decide, by decide, by decide +kernel⟩
  have notGame := ((oneAbove_iff behind 200000).mp above).2
  intro same
  have accepted :
      isValid (addressed 1 [1, 2, 3, 4, 21, gSplitFlag, 6, 7]) 200000 =
        .ok true := by
    decide
  exact notGame ((grammar_double_iff behind 200000).mp (same.mp accepted))

/-! ## The number of tickets -/

/-- Every number that `MselectN` computes on the way is the true one. -/
structure ExactSelection (m n : Nat) : Prop where
  all : (factorial m).toInt = m.factorial
  others : (factorial (m - n)).toInt = (m - n).factorial
  chosen : (factorial n).toInt = n.factorial
  product :
    (factorial (m - n) * factorial n).toInt =
      (m - n).factorial * n.factorial
  quotient : m.choose n < 2 ^ 31

/-- The arguments that `getTotalBer` gives to `MselectN`. -/
def selections (bet : CBet) : List (Nat × Nat) :=
  match bet.type with
  | .type15_6 => [(bet.vch.length, 6)]
  | .typeMulilt =>
      [((redPart bet.vch).length, 5), ((bluesOf bet.vch).length, 2)]

/--
`getTotalBer` is the number of tickets, and the value of a ticket is at least
the minimum.
-/
def CountsExactly (bet : CBet) : Prop :=
  ∃ total npeerBetValue,
    bet.getTotalBer = .ok total ∧ 0 < total ∧
    total.toInt = ticketCount bet.type bet.vch ∧
    (∀ arguments ∈ selections bet,
      ExactSelection arguments.1 arguments.2) ∧
    divide bet.nValue total.toInt64 = .ok npeerBetValue ∧
    nMinBet ≤ npeerBetValue

theorem exactSelection_of_few
    {m n : Nat} (few : m ≤ 20) (small : n ≤ 6) : ExactSelection m n := by
  have table :
      ∀ m < 21, ∀ n < 7,
        (factorial m).toInt = m.factorial ∧
        (factorial (m - n)).toInt = (m - n).factorial ∧
        (factorial n).toInt = n.factorial ∧
        (factorial (m - n) * factorial n).toInt =
          (m - n).factorial * n.factorial ∧
        m.choose n < 2 ^ 31 := by
    decide
  rcases table m (by omega) n (by omega) with
    ⟨all, others, chosen, product, quotient⟩
  exact ⟨all, others, chosen, product, quotient⟩

theorem not_exactSelection_twentyOne (n : Nat) : ¬ ExactSelection 21 n := by
  intro exact
  exact absurd exact.all (by decide)

theorem selections_few
    {bet : CBet} (wellFormed : WellFormed bet) (fewReds : FewReds bet) :
    ∀ arguments ∈ selections bet, arguments.1 ≤ 20 ∧ arguments.2 ≤ 6 := by
  rw [selections]
  cases type : bet.type with
  | type15_6 =>
      have size := wellFormed.sixes type
      simp only [List.mem_singleton, forall_eq]
      omega
  | typeMulilt =>
      rcases wellFormed.doubles type with ⟨blue, flag, -, -, blueShort, -⟩
      have redShort := fewReds type
      simp only [List.mem_cons, List.not_mem_nil, or_false, forall_eq_or_imp,
        forall_eq, bluesOf, flag, Option.getD_some]
      omega

/-- The quotient is at least the minimum when the stake exceeds it. -/
theorem nMinBet_le_of_lt
    {bet : CBet} {npeerBetValue : Int64}
    (wellFormed : WellFormed bet) (fewReds : FewReds bet)
    (price : npeerBetValue.toInt = ticketPrice bet) :
    nMinBet ≤ npeerBetValue := by
  have bounds := ticketCount_bounds wellFormed fewReds
  have paid := minBet_lt_nValue wellFormed fewReds
  have minimum : nMinBet.toInt = 100000 := by decide
  have enough : 100000 ≤ ticketPrice bet := by
    rw [ticketPrice, Nat.le_div_iff_mul_le bounds.1]
    omega
  rw [Int64.le_iff_toInt_le, minimum, price]
  exact_mod_cast enough

/--
The tickets of an accepted bet are counted exactly unless it selects
twenty-one red numbers.
-/
theorem countsExactly_iff
    (bet : CBet) (valid : bet.isValid = .ok true) :
    CountsExactly bet ↔
      (bet.type = .typeMulilt → (redPart bet.vch).length ≤ 20) := by
  constructor
  · rintro ⟨total, price, -, -, -, exactly, -, -⟩ type
    by_contra many
    have double : bet.isValidMulity = .ok true := by
      rw [CBet.isValid, type] at valid
      exact valid
    rcases (isValidMulity_iff type).mp double with
      ⟨-, reds, blues, parts, -, red, -⟩
    have isRed : redPart bet.vch = reds := by
      rw [parts, redPart_of_flag (red.ne_flag (by decide))]
    have atMost := red.length_le
    have twentyOne : (redPart bet.vch).length = 21 := by
      rw [isRed] at many ⊢
      omega
    have selected :=
      exactly ((redPart bet.vch).length, 5) (by simp [selections, type])
    rw [twentyOne] at selected
    exact not_exactSelection_twentyOne 5 selected
  · intro fewReds
    have wellFormed := wellFormed_of_isValid valid
    have bounds := ticketCount_bounds wellFormed fewReds
    have value :
        (Int32.ofNat (ticketCount bet.type bet.vch)).toInt =
          ticketCount bet.type bet.vch :=
      Int32.toInt_ofNat_of_lt (by omega)
    rcases divide_nValue wellFormed fewReds with ⟨price, quotient, priced⟩
    refine ⟨_, price, getTotalBer_eq wellFormed fewReds, ?_, value, ?_,
      quotient, nMinBet_le_of_lt wellFormed fewReds priced⟩
    · rw [Int32.lt_iff_toInt_lt, value]
      simpa using bounds.1
    · intro arguments member
      have few := selections_few wellFormed fewReds arguments member
      exact exactSelection_of_few few.1 few.2

/-- A double selection of twenty red and three blue numbers. -/
def widestReds : List UInt8 :=
  (List.range 20).map (fun i => UInt8.ofNat (i + 1)) ++ [gSplitFlag, 1, 2, 3]

theorem widestReds_countsExactly :
    (parsedBet .typeMulilt [] widestReds 5000000000).isValid = .ok true ∧
      CountsExactly (parsedBet .typeMulilt [] widestReds 5000000000) := by
  have valid :
      (parsedBet .typeMulilt [] widestReds 5000000000).isValid =
        .ok true := by
    decide
  exact ⟨valid, (countsExactly_iff _ valid).mpr (fun _ => by decide)⟩

/-- A double selection of twenty-one red and two blue numbers. -/
def tooManyReds : List UInt8 :=
  (List.range 21).map (fun i => UInt8.ofNat (i + 1)) ++ [gSplitFlag, 1, 2]

/-- Twenty-one red numbers are accepted at any price. -/
theorem tooManyReds_not_countsExactly :
    (parsedBet .typeMulilt [] tooManyReds 1).isValid = .ok true ∧
      ticketCount .typeMulilt tooManyReds = 20349 ∧
      (parsedBet .typeMulilt [] tooManyReds 1).getTotalBer = .ok (-1692) ∧
      ¬ CountsExactly (parsedBet .typeMulilt [] tooManyReds 1) := by
  refine ⟨by decide, by decide, by decide, ?_⟩
  rintro ⟨total, price, counted, positive, -⟩
  have computed :
      (parsedBet .typeMulilt [] tooManyReds 1).getTotalBer =
        .ok (-1692) := by
    decide
  rw [computed, Except.ok.injEq] at counted
  rw [← counted] at positive
  exact absurd positive (by decide)

end DSValue.Lotto.Validity

import DSValue.Consensus.TxOut
import DSValue.Lotto.Payout

/-!
# Which blocks can be drawn

The scan that accepts an output as a bet and the code that parses it at the
draw are different.  A block can be drawn when every output the scan takes as
a bet carries a bet of its own that `CLotto::IsValid` accepts, with at most
twenty red numbers, and when the prizes of each tier fit into an `int64_t`.

An output that pays the pool without `OP_LOTTO` behind an accepted bet is
collected as well, and the draw then ends in the assertion of `CLotto::Init`.
-/

namespace DSValue.Consensus.Drawable

open DSValue.Lib
open DSValue.Lib.Encoding
open DSValue.Core.Serialize
open DSValue.Core.Transaction
open DSValue.Script.Scan
open DSValue.Lotto.Bet
open DSValue.Lotto.Draw
open DSValue.Lotto.Tickets
open DSValue.Lotto.Payout
open DSValue.Consensus.TxOut

/-- The bet of an output, if its script carries one that can be parsed. -/
def betOf (txout : CTxOut) : Option CBet :=
  match getBetData txout.scriptPubKey with
  | none => none
  | some data => (CBet.ofBetData data txout.nValue).toOption

theorem betOf_eq_some {txout : CTxOut} {bet : CBet} :
    betOf txout = some bet ↔
      ∃ data, getBetData txout.scriptPubKey = some data ∧
        CBet.ofBetData data txout.nValue = .ok bet := by
  rw [betOf]
  cases found : getBetData txout.scriptPubKey with
  | none => simp
  | some data =>
      cases built : CBet.ofBetData data txout.nValue with
      | error fault => simp [built, Except.toOption]
      | ok value => simp [built, Except.toOption]

/-- The output carries a valid bet with at most twenty red numbers. -/
def OwnsSoundBet (txout : CTxOut) : Prop :=
  ∃ bet, betOf txout = some bet ∧ bet.isValid = .ok true ∧ FewReds bet

instance (bet : CBet) : Decidable (FewReds bet) :=
  inferInstanceAs (Decidable (_ → _))

instance (txout : CTxOut) : Decidable (OwnsSoundBet txout) :=
  match parsed : betOf txout with
  | none => isFalse (by simp [OwnsSoundBet, parsed])
  | some bet =>
      decidable_of_iff (bet.isValid = .ok true ∧ FewReds bet)
        (by simp [OwnsSoundBet, parsed])

/-- The prize of an output in a tier, over the natural numbers. -/
def outputPrize
    (stars : BetType → List UInt8) (rt : RwdType) (txout : CTxOut) : Nat :=
  match betOf txout with
  | none => 0
  | some bet => multiple bet.type rt * wonValue stars bet rt

/-- The prizes of each tier stay below `2 ^ 63`. -/
def OutputPrizesFit
    (stars : BetType → List UInt8) (vBet : List CTxOut) : Prop :=
  ∀ rt, (vBet.map (outputPrize stars rt)).sum +
    roundingSlack * vBet.length < 2 ^ 63

/-- Every pool bet of the block is a sound bet of its own. -/
def SoundPoolBets
    (network : Network) (tipHeight : Nat) (block : CBlock) : Prop :=
  ∀ tx ∈ block.vtx.tail, tx.isCoinBase = false →
    ∀ nPos txout, IsPoolBet network tipHeight tx.vout nPos →
      tx.vout[nPos]? = some txout → OwnsSoundBet txout

/-! ## Building the bets -/

theorem hasFlag_of_createLuckyStarMap
    {env : DrawEnv} {hash : Uint256} {stars : BetType → List UInt8}
    (drawn : createLuckyStarMap env hash = .ok stars) :
    HasFlag stars := by
  simp only [createLuckyStarMap, bind_eq_ok] at drawn
  rcases drawn with ⟨six, -, red, -, both, -, equal⟩
  cases equal
  refine ⟨_, bluePart_of_flag ?_⟩
  intro byte member
  simpa using List.mem_takeWhile_imp member

theorem payable_of_paysExactly
    {stars : BetType → List UInt8} {bet ready : CBet}
    (wellFormed : WellFormed bet) (fewReds : FewReds bet)
    (types : ready.type = bet.type) (numbers : ready.vch = bet.vch)
    (pays : PaysExactly ready.rewardmap (wonValue stars bet)) :
    Payable ready ∧ ∀ rt, won ready rt = wonValue stars bet rt := by
  have entries :
      ∀ rt second, ready.rewardmap rt = some second →
        0 < wonValue stars bet rt ∧
          second.toInt = wonValue stars bet rt := by
    intro rt second entry
    have paid := pays rt
    rw [entry] at paid
    exact paid
  refine ⟨⟨?_, ?_, ?_⟩, ?_⟩
  · intro rt second entry
    have facts := entries rt second entry
    omega
  · intro rt second entry
    have tickets :
        0 < winningTickets (stars bet.type) bet.vch bet.type rt :=
      Nat.pos_of_mul_pos_right (entries rt second entry).1
    rw [types]
    cases type : bet.type with
    | type15_6 =>
        rw [type] at tickets
        cases rt with
        | top4 => exact absurd tickets (by simp [winningTickets])
        | top5 => exact absurd tickets (by simp [winningTickets])
        | _ => exact Nat.succ_pos _
    | typeMulilt => cases rt <;> exact Nat.succ_pos _
  · refine ⟨_, getTotalBer_of_same wellFormed fewReds ready types numbers, ?_⟩
    rw [Int64.lt_iff_toInt_lt, toInt_ticketCount wellFormed fewReds]
    have bounds := ticketCount_bounds wellFormed fewReds
    simpa using bounds.1
  · intro rt
    have paid := pays rt
    rw [won]
    cases entry : ready.rewardmap rt with
    | none =>
        rw [entry] at paid
        exact paid.symm
    | some second =>
        have facts := entries rt second entry
        simp only
        omega

/-- The winning tickets of an output are worth less than `2 ^ 63`. -/
def WonFits (stars : BetType → List UInt8) (txout : CTxOut) : Prop :=
  ∀ bet, betOf txout = some bet → ∀ rt, wonValue stars bet rt < 2 ^ 63

theorem wonFits_of_outputPrize
    {stars : BetType → List UInt8} {txout : CTxOut}
    (fits : ∀ rt, outputPrize stars rt txout < 2 ^ 63) :
    WonFits stars txout := by
  intro bet parsed rt
  have prizes := fits rt
  rw [outputPrize, parsed] at prizes
  simp only at prizes
  have noPrize : multiple bet.type rt = 0 → wonValue stars bet rt = 0 := by
    intro zero
    rw [wonValue]
    cases type : bet.type <;> rw [type] at zero <;> cases rt <;>
      first
      | exact absurd zero (by decide)
      | simp [winningTickets]
  by_cases zero : multiple bet.type rt = 0
  · rw [noPrize zero]
    exact Nat.two_pow_pos 63
  · exact lt_of_le_of_lt
      (Nat.le_mul_of_pos_left _ (Nat.pos_of_ne_zero zero)) prizes

/-- A sound bet is built with the prizes of its tickets. -/
theorem initBet_payable
    {stars : BetType → List UInt8} {txout : CTxOut}
    (sound : OwnsSoundBet txout) (hasFlag : HasFlag stars)
    (fits : WonFits stars txout) :
    ∃ ready, initBet stars txout = .ok ready ∧ Payable ready ∧
      ∀ rt, prize ready rt = outputPrize stars rt txout := by
  rcases sound with ⟨bet, parsed, valid, fewReds⟩
  have wellFormed := wellFormed_of_isValid valid
  have wonFits := fits bet parsed
  have prizes :
      ∀ rt, outputPrize stars rt txout =
        multiple bet.type rt * wonValue stars bet rt := by
    intro rt
    rw [outputPrize, parsed]
  rcases betOf_eq_some.mp parsed with ⟨data, found, built⟩
  rcases initBet_ok found built valid fewReds hasFlag wonFits with
    ⟨ready, ran, types, numbers, -, pays⟩
  rcases payable_of_paysExactly wellFormed fewReds types numbers pays with
    ⟨payable, values⟩
  refine ⟨ready, ran, payable, ?_⟩
  intro rt
  rw [prize, values, types, prizes]

theorem mapM_initBet_payable
    {stars : BetType → List UInt8} {vBet : List CTxOut}
    (sound : ∀ txout ∈ vBet, OwnsSoundBet txout) (hasFlag : HasFlag stars)
    (fits : ∀ txout ∈ vBet, WonFits stars txout) :
    ∃ bets, vBet.mapM (initBet stars) = .ok bets ∧
      (∀ bet ∈ bets, Payable bet) ∧ bets.length = vBet.length ∧
      ∀ rt, tierTotal bets rt = (vBet.map (outputPrize stars rt)).sum := by
  induction vBet with
  | nil => exact ⟨[], rfl, by simp, rfl, by simp [tierTotal]⟩
  | cons txout rest inductionHypothesis =>
      rcases initBet_payable (sound txout (by simp)) hasFlag
        (fits txout (by simp)) with ⟨ready, built, payable, prizes⟩
      rcases inductionHypothesis
        (fun other member => sound other (List.mem_cons_of_mem txout member))
        (fun other member => fits other (List.mem_cons_of_mem txout member))
        with ⟨bets, restBuilt, restPayable, sizes, totals⟩
      refine ⟨ready :: bets, ?_, ?_, by simp [sizes], ?_⟩
      · rw [List.mapM_cons, built, restBuilt]
        rfl
      · intro bet member
        rcases List.mem_cons.mp member with rfl | later
        · exact payable
        · exact restPayable bet later
      · intro rt
        have restTotal := totals rt
        rw [tierTotal] at restTotal ⊢
        rw [List.map_cons, List.sum_cons, List.map_cons, List.sum_cons,
          prizes, restTotal]

theorem mapM_initBet_ok
    {stars : BetType → List UInt8} {vBet : List CTxOut}
    (sound : ∀ txout ∈ vBet, OwnsSoundBet txout) (hasFlag : HasFlag stars)
    (fits : ∀ txout ∈ vBet, ∀ rt, outputPrize stars rt txout < 2 ^ 63) :
    ∃ bets, vBet.mapM (initBet stars) = .ok bets ∧
      (∀ bet ∈ bets, Payable bet) ∧ bets.length = vBet.length ∧
      ∀ rt, tierTotal bets rt = (vBet.map (outputPrize stars rt)).sum :=
  mapM_initBet_payable sound hasFlag
    fun txout member => wonFits_of_outputPrize (fits txout member)

theorem outputPrize_lt
    {stars : BetType → List UInt8} {vBet : List CTxOut}
    (fits : OutputPrizesFit stars vBet) :
    ∀ txout ∈ vBet, ∀ rt, outputPrize stars rt txout < 2 ^ 63 := by
  intro txout member rt
  have bound := fits rt
  have single :=
    List.single_le_sum (fun amount _ => Nat.zero_le amount)
      (outputPrize stars rt txout)
      (List.mem_map_of_mem (f := outputPrize stars rt) member)
  omega

/-! ## Drawing a block -/

/--
The draw over sound bets whose prizes fit: it finishes, no output is
negative, the sum handed to the caller is that of the outputs, and it is at
most four fifths of the pool.
-/
theorem draw_ok
    {env : DrawEnv} {hash : Uint256} {stars : BetType → List UInt8}
    {vBet : List CTxOut} {pool : Int64}
    (drawn : createLuckyStarMap env hash = .ok stars)
    (nonzero : hash ≠ 0)
    (sound : ∀ txout ∈ vBet, OwnsSoundBet txout)
    (fits : OutputPrizesFit stars vBet)
    (nonneg : 0 ≤ pool.toInt) (small : pool.toInt < 2 ^ 53) :
    ∃ lotto vOuts llRewards,
      CLotto.ofHash env hash pool vBet = .ok lotto ∧
      CLotto.getReWardOutput lotto = .ok (vOuts, llRewards) ∧
      (∀ txout ∈ vOuts, 0 ≤ txout.nValue.toInt) ∧
      llRewards.toInt = totalValue vOuts ∧
      totalValue vOuts ≤ pool.toInt * 8 / 10 := by
  rcases mapM_initBet_ok sound (hasFlag_of_createLuckyStarMap drawn)
    (outputPrize_lt fits) with ⟨bets, built, payable, sizes, totals⟩
  have betsFit : PrizesFit bets := by
    intro rt
    rw [totals, sizes]
    exact fits rt
  rcases getReWardOutput_ok payable betsFit nonneg small with
    ⟨vOuts, llRewards, paid, facts⟩
  refine ⟨⟨bets, pool⟩, vOuts, llRewards, ?_, paid, facts⟩
  rw [CLotto.ofHash, if_neg nonzero, drawn]
  simp only [bind, Except.bind]
  rw [built]
  rfl

theorem value_le_totalValue
    {vOuts : List CTxOut} (nonneg : ∀ txout ∈ vOuts, 0 ≤ txout.nValue.toInt)
    {txout : CTxOut} (member : txout ∈ vOuts) :
    txout.nValue.toInt ≤ totalValue vOuts := by
  rw [totalValue]
  apply List.single_le_sum
  · intro value inValues
    rcases List.mem_map.mp inValues with ⟨other, inOutputs, rfl⟩
    exact nonneg other inOutputs
  · exact List.mem_map_of_mem (f := fun other => other.nValue.toInt) member

/-- A draw environment whose hash counts upwards. -/
def countingEnv : DrawEnv where
  hash := fun bytes => BitVec.ofNat 256 (leValue bytes + 1)
  readClottoData := fun _ _ => pure []
  bound := 10

/-- A block with a coinbase and one transaction with the given outputs. -/
def betBlock (vout : List CTxOut) : CBlock where
  toCBlockHeader := DSValue.Core.Header.zeroHeader
  vtx :=
    [{ nVersion := 1
       vin := [⟨⟨0, -1⟩, [0, 0], 0⟩]
       vout := [⟨0, []⟩]
       nLockTime := 0 },
      betTransaction vout]

/-- The lucky numbers that `countingEnv` draws from the hash `255`. -/
def countedStars : BetType → List UInt8
  | .type15_6 => [1, 2, 3, 4, 5, 6]
  | .typeMulilt => [1, 2, 3, 4, 5, gSplitFlag, 6, 7]

theorem countedStars_drawn :
    createLuckyStarMap countingEnv 255 = .ok countedStars := by
  have six :
      drawNumbers countingEnv.hash 15 6 10 [] 256 =
        .ok ([1, 2, 3, 4, 5, 6], 262) := by
    decide
  have red :
      drawNumbers countingEnv.hash 20 5 10 [] 256 =
        .ok ([1, 2, 3, 4, 5], 261) := by
    decide
  have both :
      drawNumbers countingEnv.hash 10 8 10
          (sortBytes [1, 2, 3, 4, 5] ++ [gSplitFlag]) 261 =
        .ok ([1, 2, 3, 4, 5, gSplitFlag, 6, 7], 263) := by
    decide
  have seed : countingEnv.hash (writeUint256 255) = 256 := by
    decide
  have bound : countingEnv.bound = 10 := rfl
  rw [createLuckyStarMap]
  simp only [seed, bound, six, red, both, bind, Except.bind, pure, Except.pure]
  congr 1

/-- The pool bet that the wallet builds, with a single winning ticket. -/
def templateBet : CTxOut :=
  ⟨200000, betScript .main [OP_LOTTOUNSPEND] sixNumberTicket⟩

/-- An output that pays the pool and carries no bet. -/
def plainPoolOutput : CTxOut :=
  ⟨200000, [OP_LOTTOUNSPEND, OP_HASH160, 20] ++ lottoPoolKeyBytes .main⟩

/-- A single double ticket with the numbers of `countedStars`. -/
def doubleTicket : List UInt8 :=
  1 :: List.replicate 20 7 ++ [1, 2, 3, 4, 5, gSplitFlag, 6, 7]

/-- A double selection of twenty-one red numbers. -/
def manyReds : List UInt8 :=
  1 :: List.replicate 20 7 ++
    (List.range 21).map (fun i => UInt8.ofNat (i + 1)) ++ [gSplitFlag, 6, 7]

/-- The pool bet of the wallet for given data. -/
def templateOutput (nValue : Int64) (bet : List UInt8) : CTxOut :=
  ⟨nValue, betScript .main [OP_LOTTOUNSPEND] bet⟩

/-- The sum that a draw by `countingEnv` from the largest pool pays. -/
def countedRewards (vBet : List CTxOut) : Except Fault Int64 := do
  let lotto ← CLotto.ofHash countingEnv 255 MAX_MONEY vBet
  let paid ← CLotto.getReWardOutput lotto
  pure paid.2

end DSValue.Consensus.Drawable

import DSValue.Consensus.Drawable

/-!
# The order of the bets in a draw

The tiers that a draw pays are decided by sums over all bets, and each bet is
then paid by itself, so the order of the bets does not matter as long as the
sums do not overflow.  The prize that `map::insert` keeps of the first bet
only is multiplied by a share that is zero.

A total that leaves the range of an `int64_t` becomes the least number, from
where later bets count upwards, and then the order decides how much is left
for the tiers behind.
-/

namespace DSValue.Consensus.DrawOrder

open DSValue.Lib
open DSValue.Lib.Budget
open DSValue.Core.Serialize
open DSValue.Core.Transaction
open DSValue.Script.Scan
open DSValue.Lotto.Bet
open DSValue.Lotto.Draw
open DSValue.Lotto.Tickets
open DSValue.Lotto.Payout
open DSValue.Consensus.TxOut
open DSValue.Consensus.Drawable

/-- `CLotto(hash, pool, bets)` followed by `GetReWardOutput`. -/
def drawOutputs
    (env : DrawEnv) (hash : Uint256) (pool : Int64) (txOutV : List CTxOut) :
    Except Fault (List CTxOut × Int64) := do
  let lotto ← CLotto.ofHash env hash pool txOutV
  CLotto.getReWardOutput lotto

/--
Every order of the bets is drawn, each bet gets an output that does not
depend on the order, and the sum is the same.
-/
def OrderFree
    (env : DrawEnv) (hash : Uint256) (pool : Int64) (vBet : List CTxOut) :
    Prop :=
  ∃ (prizeOf : CTxOut → Option CTxOut) (llRemains : Int64),
    ∀ order, order.Perm vBet →
      drawOutputs env hash pool order =
        .ok (order.filterMap prizeOf, llRemains)

/-! ## Bets by themselves -/

/-- The bet that `CLotto::Init` builds from an output. -/
def readyBet (stars : BetType → List UInt8) (txout : CTxOut) : Option CBet :=
  (initBet stars txout).toOption

theorem mapM_eq_filterMap
    {stars : BetType → List UInt8} {vBet : List CTxOut} {bets : List CBet}
    (built : vBet.mapM (initBet stars) = .ok bets) :
    bets = vBet.filterMap (readyBet stars) := by
  induction vBet generalizing bets with
  | nil =>
      cases built
      rfl
  | cons txout rest inductionHypothesis =>
      rw [List.mapM_cons, bind_eq_ok] at built
      rcases built with ⟨bet, first, built⟩
      rw [bind_eq_ok] at built
      rcases built with ⟨others, later, built⟩
      cases built
      have head : readyBet stars txout = some bet := by
        rw [readyBet, first]
        rfl
      rw [List.filterMap_cons, head, inductionHypothesis later]

/-- The exact total of a tier over outputs. -/
def outputTotal
    (stars : BetType → List UInt8) (vBet : List CTxOut) (rt : RwdType) : Nat :=
  (vBet.map (outputPrize stars rt)).sum

theorem outputTotal_perm
    (stars : BetType → List UInt8) {order vBet : List CTxOut}
    (reordered : order.Perm vBet) :
    outputTotal stars order = outputTotal stars vBet := by
  funext rt
  exact (reordered.map (outputPrize stars rt)).sum_eq

theorem outputPrizesFit_perm
    {stars : BetType → List UInt8} {order vBet : List CTxOut}
    (fits : OutputPrizesFit stars vBet) (reordered : order.Perm vBet) :
    OutputPrizesFit stars order := by
  intro rt
  have total := congrFun (outputTotal_perm stars reordered) rt
  rw [outputTotal, outputTotal] at total
  rw [total, reordered.length_eq]
  exact fits rt

/-- The tiers that a pool pays in full for the bets of some outputs. -/
def tiersPaid
    (stars : BetType → List UInt8) (vBet : List CTxOut) (pool : Int64) :
    RwdType → Bool :=
  served tierCap (outputTotal stars vBet) RwdType.all (pool.toInt * 8 / 10)

/-- The draw over sound bets whose prizes fit, output by output. -/
theorem drawOutputs_eq
    {env : DrawEnv} {hash : Uint256} {stars : BetType → List UInt8}
    {vBet : List CTxOut} {pool : Int64}
    (drawn : createLuckyStarMap env hash = .ok stars)
    (nonzero : hash ≠ 0)
    (sound : ∀ txout ∈ vBet, OwnsSoundBet txout)
    (fits : OutputPrizesFit stars vBet)
    (nonneg : 0 ≤ pool.toInt) (small : pool.toInt < 2 ^ 53) :
    drawOutputs env hash pool vBet =
      .ok
        (vBet.filterMap fun txout =>
            (readyBet stars txout).bind
              (award (tiersPaid stars vBet pool)),
          Int64.ofNat
            ((vBet.filterMap (readyBet stars)).map
              (payout (tiersPaid stars vBet pool))).sum) := by
  rcases mapM_initBet_ok sound (hasFlag_of_createLuckyStarMap drawn)
    (outputPrize_lt fits) with ⟨bets, built, payable, sizes, totals⟩
  have betsFit : PrizesFit bets := by
    intro rt
    rw [totals, sizes]
    exact fits rt
  have sameTotals : tierTotal bets = outputTotal stars vBet := by
    funext rt
    exact totals rt
  have tiers : paidTiers bets pool = tiersPaid stars vBet pool := by
    rw [paidTiers, tiersPaid, sameTotals]
  have computed := (getReWardOutput_eq payable betsFit nonneg small).1
  rw [tiers, mapM_eq_filterMap built, List.filterMap_filterMap] at computed
  rw [drawOutputs, CLotto.ofHash, if_neg nonzero, drawn]
  simp only [bind, Except.bind] at built ⊢
  rw [built]
  simp only [pure, Except.pure]
  rw [mapM_eq_filterMap built]
  exact computed

/-- A ticket with three lucky red numbers of `countedStars` and no blue one. -/
def threeReds : List UInt8 :=
  1 :: List.replicate 20 7 ++ [1, 2, 3, 6, 7, gSplitFlag, 1, 2]

/-- A first prize that does not fit, one that does and a fifth prize. -/
def overflowingBets : List CTxOut :=
  [templateOutput 44000000000000 doubleTicket,
    templateOutput 200000 doubleTicket, templateOutput 200000 threeReds]

end DSValue.Consensus.DrawOrder

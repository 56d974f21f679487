import DSValue.Core.Transaction
import DSValue.Lib.Double
import DSValue.Lotto.Bet

/-!
# The draw

`CLotto` draws the lucky numbers of both bet types from a hash, counts the
winning tickets of every bet and divides the pool among the prize tiers.

The numbers are taken from iterated hashes until enough different ones are
found.  The source has no limit on the iterations; here `DrawEnv.bound` is
one, and a draw that needs more ends in `Fault.unfinished`.
-/

namespace DSValue.Lotto.Draw

open DSValue.Lib
open DSValue.Lib.Encoding
open DSValue.Core.Serialize
open DSValue.Core.Transaction
open DSValue.Script.Scan
open DSValue.Lotto.Bet

/-! ## Lucky numbers -/

/--
What a draw reads besides the bets: the double SHA-256, the key file and the
limit on the number of hashes.
-/
structure DrawEnv where
  hash : List UInt8 → Uint256
  readClottoData : Int32 → Uint256 → Except Fault (List UInt8)
  bound : Nat

/-- `CBigNum(hash).getvch()[0]`; the byte vector of zero is empty. -/
def firstByte (hashtep : Uint256) : Except Fault UInt8 :=
  if hashtep = 0 then throw .outOfRange
  else pure (UInt8.ofNat hashtep.toNat)

/-- The loop that collects numbers from `1` to `limit` up to a size. -/
def drawNumbers (hash : List UInt8 → Uint256) (limit : UInt8) (size : Nat) :
    Nat → List UInt8 → Uint256 → Except Fault (List UInt8 × Uint256)
  | 0, _, _ => throw .unfinished
  | bound + 1, plukeyNum, hashtep => do
      let byte ← firstByte hashtep
      let plukeyNum :=
        if byte < limit ∧ byte + 1 ∉ plukeyNum then plukeyNum ++ [byte + 1]
        else plukeyNum
      let hashtep := hash (writeUint256 hashtep)
      if plukeyNum.length < size then
        drawNumbers hash limit size bound plukeyNum hashtep
      else pure (plukeyNum, hashtep)

/-- `CLotto::CreateLuckyStarMap` for a non-zero hash. -/
def createLuckyStarMap (env : DrawEnv) (hash : Uint256) :
    Except Fault (BetType → List UInt8) := do
  let hashtep := env.hash (writeUint256 hash)
  let six ← drawNumbers env.hash 15 6 env.bound [] hashtep
  let red ← drawNumbers env.hash 20 5 env.bound [] hashtep
  let both ←
    drawNumbers env.hash 10 8 env.bound
      (sortBytes red.1 ++ [gSplitFlag]) red.2
  pure fun
    | .type15_6 => sortBytes six.1
    | .typeMulilt =>
        redPart both.1 ++
          gSplitFlag :: sortBytes ((bluePart both.1).getD [])

/-! ## Winning tickets -/

/-- How many of the selected numbers are lucky. -/
def luckyCount (selected lucky : List UInt8) : Nat :=
  (selected.filter (fun no => no ∈ lucky)).length

/--
The tickets of a choice of `selected` numbers, `lucky` of them lucky, that
hold exactly `hits` lucky numbers among `size`.
-/
def ticketsWithHits (selected lucky size hits : Nat) : Except Fault Int32 := do
  let inside ← mselectN (Int32.ofNat lucky) (Int32.ofNat hits)
  let outside ←
    mselectN (Int32.ofNat (selected - lucky)) (Int32.ofNat (size - hits))
  pure (inside * outside)

/-- The prize map from the winning tickets of each tier. -/
def rewardMapOf (tickets : RwdType → Int32) (npeerBetValue : Int64) :
    RewardMap := fun rt =>
  if 0 < tickets rt then some ((tickets rt).toInt64 * npeerBetValue) else none

/-- `CBet_15_6::CreateRewardMap`. -/
def CBet.createRewardMap15_6 (bet : CBet) : Except Fault RewardMap := do
  let lucky := luckyCount bet.vch bet.vLuckyStar
  let total ← bet.getTotalBer
  let npeerBetValue ← divide bet.nValue total.toInt64
  let ktop1 ← ticketsWithHits bet.vch.length lucky 6 6
  let ktop2 ← ticketsWithHits bet.vch.length lucky 6 5
  let ktop3 ← ticketsWithHits bet.vch.length lucky 6 4
  pure (rewardMapOf
    (fun
      | .top1 => ktop1
      | .top2 => ktop2
      | .top3 => ktop3
      | _ => 0)
    npeerBetValue)

/-- Tickets with exactly `red` and `blue` hits of a double selection. -/
def doubleTickets (redSize redCount blueSize blueCount red blue : Nat) :
    Except Fault Int32 := do
  let redTickets ← ticketsWithHits redSize redCount 5 red
  let blueTickets ← ticketsWithHits blueSize blueCount 2 blue
  pure (redTickets * blueTickets)

/-- The tickets of several pairs of hits. -/
def doubleTicketSum (redSize redCount blueSize blueCount : Nat) :
    List (Nat × Nat) → Except Fault Int32
  | [] => pure 0
  | hits :: rest => do
      let tickets ←
        doubleTickets redSize redCount blueSize blueCount hits.1 hits.2
      let others ← doubleTicketSum redSize redCount blueSize blueCount rest
      pure (tickets + others)

/-- The pairs of red and blue hits that `CalcRewardBet` pays in each tier. -/
def mulityHits : RwdType → List (Nat × Nat)
  | .top1 => []
  | .top2 => [(4, 2), (5, 1)]
  | .top3 => [(4, 1), (5, 0), (3, 2)]
  | .top4 => [(4, 0), (3, 1), (2, 2)]
  | .top5 => [(3, 0), (2, 1), (0, 2)]

/-- `CBetMulity::CalcRewardBet`. -/
def CBet.calcRewardBet (bet : CBet) (redCount blueCount : Nat) :
    Except Fault RewardMap := do
  let total ← bet.getTotalBer
  let npeerBetValue ← divide bet.nValue total.toInt64
  let tickets := fun rt =>
    doubleTicketSum bet.vRed.length redCount bet.vBlue.length blueCount
      (mulityHits rt)
  let top2 ← tickets .top2
  let top3 ← tickets .top3
  let top4 ← tickets .top4
  let top5 ← tickets .top5
  pure (rewardMapOf
    (fun
      | .top1 => if 5 ≤ redCount ∧ 2 ≤ blueCount then 1 else 0
      | .top2 => top2
      | .top3 => top3
      | .top4 => top4
      | .top5 => top5)
    npeerBetValue)

/-- `CBetMulity::CreateRewardMap`. -/
def CBet.createRewardMapMulity (bet : CBet) : Except Fault RewardMap :=
  match bluePart bet.vLuckyStar with
  | none => pure bet.rewardmap
  | some additinualLucky =>
      if bet.vRed.isEmpty ∨ bet.vBlue.isEmpty then pure bet.rewardmap
      else
        CBet.calcRewardBet bet
          (luckyCount bet.vRed (sortBytes (redPart bet.vLuckyStar)))
          (luckyCount bet.vBlue (sortBytes additinualLucky))

/-- The prize map that the virtual `CreateRewardMap` leaves. -/
def CBet.rewardMapByType (bet : CBet) : Except Fault RewardMap :=
  match bet.type with
  | .type15_6 => CBet.createRewardMap15_6 bet
  | .typeMulilt => CBet.createRewardMapMulity bet

/-- The virtual `CreateRewardMap`. -/
def CBet.createRewardMap (bet : CBet) : Except Fault CBet := do
  let rewardmap ← CBet.rewardMapByType bet
  pure { bet with rewardmap := rewardmap }

/-- `CBet::isWinning`. -/
def CBet.isWinning (bet : CBet) : Bool :=
  RwdType.all.any (fun rt => (bet.rewardmap rt).isSome)

/-- The virtual `GetMulit`. -/
def getMulit : BetType → RwdType → Except Fault Int64
  | .type15_6, .top1 => pure 3000
  | .type15_6, .top2 => pure 17
  | .type15_6, .top3 => pure 2
  | .type15_6, _ => throw .exception
  | .typeMulilt, .top1 => pure 210000
  | .typeMulilt, .top2 => pure 1000
  | .typeMulilt, .top3 => pure 30
  | .typeMulilt, .top4 => pure 5
  | .typeMulilt, .top5 => pure 2

/-! ## Construction -/

/-- `CBetMulity::SplitSelectNum`. -/
def CBet.splitSelectNum (bet : CBet) : CBet :=
  match bluePart bet.vch with
  | none => bet
  | some blue =>
      { bet with
        vRed := sortBytes (redPart bet.vch)
        vBlue := sortBytes blue }

/-- `CLotto::CreateCbet`, with the value of the output. -/
def createCbet (pLotto : List UInt8) (nValue : Int64) :
    Except Fault CBet := do
  let bet ← CBet.ofBetData pLotto nValue
  pure
    (match bet.type with
      | .type15_6 => bet
      | .typeMulilt => CBet.splitSelectNum bet)

/-- One turn of the loop of `CLotto::Init`. -/
def initBet (mLuckyStar : BetType → List UInt8) (txout : CTxOut) :
    Except Fault CBet :=
  match getBetData txout.scriptPubKey with
  | none => throw .assertion
  | some vBetData => do
      let bet ← createCbet vBetData txout.nValue
      CBet.createRewardMap { bet with vLuckyStar := mLuckyStar bet.type }

/-- `CLotto`: its bets with their prize maps, and the pool. -/
structure CLotto where
  vBet : List CBet
  rewardPool : Int64

/-- `CLotto::CLotto(uHash, iRewardPool, txOutV)` with `CLotto::Init`. -/
def CLotto.ofHash
    (env : DrawEnv) (hash : Uint256) (iRewardPool : Int64)
    (txOutV : List CTxOut) : Except Fault CLotto := do
  if hash = 0 then pure ⟨[], iRewardPool⟩
  else
    let mLuckyStar ← createLuckyStarMap env hash
    let vBet ← txOutV.mapM (initBet mLuckyStar)
    pure ⟨vBet, iRewardPool⟩

/-- `CLotto::CLotto(uBitcoinHash, lottoID, nsecrethash, iRewardPool, txOutV)`. -/
def CLotto.ofKey
    (env : DrawEnv) (uBitcoinHash : Uint256) (lottoID : Int32)
    (nsecrethash : Uint256) (iRewardPool : Int64) (txOutV : List CTxOut) :
    Except Fault CLotto := do
  let clear ← env.readClottoData lottoID nsecrethash
  CLotto.ofHash env (env.hash (writeUint256 uBitcoinHash ++ clear))
    iRewardPool txOutV

/-! ## Dividing the pool -/

/-- `BetCoins`, as `CLotto::CreateRewardSchemeMap` fills it. -/
def betCoins (vBet : List CBet) (type : BetType) : RewardMap := fun rt =>
  vBet.foldl
    (fun coins bet =>
      if bet.type = type then
        match bet.rewardmap rt with
        | none => coins
        | some second => some (coins.getD 0 + second)
      else coins)
    none

/-- `reward_total`, summed in double precision over both bet types. -/
def rewardTotal (vBet : List CBet) (rt : RwdType) : Except Fault Int64 :=
  vBet.foldlM
    (fun total bet =>
      match bet.rewardmap rt with
      | none => pure total
      | some second => do
          let multi ← getMulit bet.type rt
          pure (Double.toInt64
            (Double.add (Double.ofInt64 total)
              (Double.mul (Double.ofInt64 multi) (Double.ofInt64 second)))))
    0

/-- `reward_m`: the first prize inserted for a bet type. -/
def rewardM (vBet : List CBet) (type : BetType) (rt : RwdType) :
    Except Fault (Option Int64) :=
  match vBet with
  | [] => pure none
  | bet :: rest =>
      match bet.rewardmap rt with
      | none => rewardM rest type rt
      | some second =>
          if bet.type = type then do
            let multi ← getMulit bet.type rt
            pure (some (Double.toInt64
              (Double.mul (Double.ofInt64 second) (Double.ofInt64 multi))))
          else rewardM rest type rt

/-- `mRewardScheme`. -/
abbrev RewardScheme := BetType → RewardMap

/-- The entry of an oversubscribed tier for one bet type. -/
def schemeEntry (vBet : List CBet) (maxreward total : Int64)
    (rt : RwdType) (type : BetType) : Except Fault (Option Int64) := do
  match betCoins vBet type rt, ← rewardM vBet type rt with
  | some coins, some first => do
      let share ← divide maxreward coins
      let perPrize ← divide share total
      pure (some (perPrize * first))
  | _, _ => pure none

/-- The scheme with the entries of one tier. -/
def RewardScheme.update (scheme : RewardScheme) (rt : RwdType)
    (entries : BetType → Option Int64) : RewardScheme := fun type other =>
  if other = rt then entries type else scheme type other

/-- The loop over the tiers of `CLotto::CreateStatisticsRewardMap`. -/
def statisticsLoop (vBet : List CBet) :
    List RwdType → Int64 → RewardScheme → Except Fault RewardScheme
  | [], _, scheme => pure scheme
  | rt :: rest, availablereward, scheme => do
      let maxreward :=
        if rt = .top5 then availablereward else availablereward * 8 / 10
      let total ← rewardTotal vBet rt
      if maxreward < total then
        let six ← schemeEntry vBet maxreward total rt .type15_6
        let double ← schemeEntry vBet maxreward total rt .typeMulilt
        statisticsLoop vBet rest (availablereward - maxreward)
          (scheme.update rt (fun
            | .type15_6 => six
            | .typeMulilt => double))
      else
        statisticsLoop vBet rest
          (availablereward - maxreward + (maxreward - total)) scheme

/-- `CLotto::CreateStatisticsRewardMap`. -/
def CLotto.createStatisticsRewardMap (lotto : CLotto) :
    Except Fault RewardScheme :=
  statisticsLoop lotto.vBet RwdType.all (lotto.rewardPool * 8 / 10)
    (fun _ _ => none)

/-! ## Paying out -/

/-- The script `CScript::SetDestination` writes for a key id. -/
def setDestination (address : Uint160) : CScript :=
  [OP_DUP, OP_HASH160, 20] ++ littleEndian 20 address.toNat ++
    [OP_EQUALVERIFY, OP_CHECKSIG]

/-- The loop over the prizes of one bet in `CLotto::GetReWardOutput`. -/
def payPrizes (scheme : RewardScheme) (bet : CBet) :
    List RwdType → Int64 → Except Fault Int64
  | [], nValue => pure nValue
  | rt :: rest, nValue =>
      match bet.rewardmap rt with
      | none => payPrizes scheme bet rest nValue
      | some second =>
          match scheme bet.type rt with
          | some perCoin =>
              payPrizes scheme bet rest (nValue + perCoin * second)
          | none => do
              let multi ← getMulit bet.type rt
              payPrizes scheme bet rest (nValue + multi * second)

/-- The output of one winning bet. -/
def payBet (scheme : RewardScheme) (bet : CBet) : Except Fault CTxOut := do
  let total ← bet.getTotalBer
  let _ ← divide bet.nValue total.toInt64
  let nValue ← payPrizes scheme bet RwdType.all 0
  pure ⟨nValue, setDestination bet.address⟩

/-- The loop of `CLotto::GetReWardOutput`. -/
def payLoop (scheme : RewardScheme) :
    List CBet → List CTxOut → Int64 → Except Fault (List CTxOut × Int64)
  | [], vOuts, llRemains => pure (vOuts, llRemains)
  | bet :: rest, vOuts, llRemains =>
      if CBet.isWinning bet then do
        let txout ← payBet scheme bet
        payLoop scheme rest (vOuts ++ [txout]) (llRemains + txout.nValue)
      else payLoop scheme rest vOuts llRemains

/-- `CLotto::GetReWardOutput` on empty outputs and a zero sum. -/
def CLotto.getReWardOutput (lotto : CLotto) :
    Except Fault (List CTxOut × Int64) := do
  let scheme ← lotto.createStatisticsRewardMap
  payLoop scheme lotto.vBet [] 0

end DSValue.Lotto.Draw

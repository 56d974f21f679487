import DSValue.Lib.MachineInt
import DSValue.Script.Scan
import Mathlib.Data.List.Sort
import Mathlib.Order.Lattice

/-!
# Bets

A bet is the operand behind `OP_LOTTO`: a type byte, twenty address bytes and
the selected numbers.  There are two kinds, six numbers out of fifteen and
five red out of twenty with two blue out of ten behind a split flag, and a
bet may select more numbers than one ticket needs, so that it stands for
several tickets.

All arithmetic is on machine integers as in the source.  A failed `Assert`, a
read behind the end of a vector and a trapping division are faults.
-/

namespace DSValue.Lotto.Bet

open DSValue.Lib
open DSValue.Core.Serialize
open DSValue.Script.Scan

/-- `BET_TYPE`. -/
inductive BetType where
  | type15_6
  | typeMulilt
deriving DecidableEq

/-- `RWD_TYPE`. -/
inductive RwdType where
  | top1
  | top2
  | top3
  | top4
  | top5
deriving DecidableEq

/-- The prize tiers in the order of the enumeration. -/
def RwdType.all : List RwdType :=
  [.top1, .top2, .top3, .top4, .top5]

/-- `gSplitFlag`. -/
def gSplitFlag : UInt8 := 0xff

/-- `std::sort` on bytes. -/
def sortBytes (bytes : List UInt8) : List UInt8 :=
  bytes.insertionSort (fun left right => left ≤ right)

/-! ## Bet data -/

/-- `CBetData::GetType`. -/
def getType : List UInt8 → Except Fault BetType
  | [] => pure .type15_6
  | byte :: _ =>
      if byte = 0 then pure .type15_6
      else if byte = 1 then pure .typeMulilt
      else throw .assertion

/-- `ADRESSLEN`. -/
def ADRESSLEN : Nat := 20

/--
`CBetData::GetAddr`.  With exactly twenty bytes the copied range ends behind
the vector.
-/
def getAddr (data : List UInt8) : Except Fault Uint160 :=
  if data.length < ADRESSLEN then pure 0
  else if data.length = ADRESSLEN then throw .outOfRange
  else do
    let _ ← getType data
    pure (uint160OfVch ((data.drop 1).take ADRESSLEN))

/-- `CBetData::GetSelectV`. -/
def getSelectV (data : List UInt8) : Except Fault (List UInt8) :=
  if data.length < ADRESSLEN then pure []
  else if data.length = ADRESSLEN then throw .outOfRange
  else do
    let _ ← getType data
    pure (data.drop (1 + ADRESSLEN))

/-- A prize map, `std::map<RWD_TYPE, int64_t>`. -/
abbrev RewardMap := RwdType → Option Int64

/--
`CBet` with the two vectors of `CBetMulity`.  The class of the object is the
bet type, which `CreateCbet` and `CLotto::IsValid` construct it by.
-/
structure CBet where
  type : BetType
  address : Uint160
  vch : List UInt8
  nValue : Int64
  vRed : List UInt8
  vBlue : List UInt8
  vLuckyStar : List UInt8
  rewardmap : RewardMap

/-- `CBet::operator<<(CBetData)` on a fresh object with a value. -/
def CBet.ofBetData (data : List UInt8) (nValue : Int64) :
    Except Fault CBet := do
  let type ← getType data
  let address ← getAddr data
  let vch ← getSelectV data
  pure
    { type := type
      address := address
      vch := vch
      nValue := nValue
      vRed := []
      vBlue := []
      vLuckyStar := []
      rewardmap := fun _ => none }

/-! ## Counting tickets -/

/-- `CBet::factorial`. -/
def factorial : Nat → Int64
  | 0 => 1
  | 1 => 1
  | n + 2 => Int64.ofNat (n + 2) * factorial (n + 1)

/-- `CBet::MselectN`. -/
def mselectN (m n : Int32) : Except Fault Int32 :=
  if m < 0 ∨ n < 0 then throw .assertion
  else if n = 0 then pure 1
  else if m < n then pure 0
  else if m < 1 ∨ m = n then pure 1
  else do
    let quotient ←
      divide (factorial m.toInt.toNat)
        (factorial (m - n).toInt.toNat * factorial n.toInt.toNat)
    pure quotient.toInt32

/-- The numbers in front of the first split flag. -/
def redPart (vch : List UInt8) : List UInt8 :=
  vch.takeWhile (fun byte => byte ≠ gSplitFlag)

/-- The numbers behind the first split flag, if there is one. -/
def bluePart (vch : List UInt8) : Option (List UInt8) :=
  match vch.dropWhile (fun byte => byte ≠ gSplitFlag) with
  | [] => none
  | _ :: blue => some blue

/-- `CBet_15_6::getTotalBer`. -/
def CBet.getTotalBer15_6 (bet : CBet) : Except Fault Int32 :=
  mselectN (Int32.ofNat bet.vch.length) 6

/--
`CBetMulity::getTotalBer`.  Without a split flag the second distance is
minus one.
-/
def CBet.getTotalBerMulity (bet : CBet) : Except Fault Int32 := do
  let red ← mselectN (Int32.ofNat (redPart bet.vch).length) 5
  let blue ←
    mselectN
      (match bluePart bet.vch with
        | none => -1
        | some blue => Int32.ofNat blue.length)
      2
  pure (red * blue)

/-- The virtual `getTotalBer`. -/
def CBet.getTotalBer (bet : CBet) : Except Fault Int32 :=
  match bet.type with
  | .type15_6 => bet.getTotalBer15_6
  | .typeMulilt => bet.getTotalBerMulity

/-! ## Validity -/

/-- `CTransaction::nMinBet`. -/
def nMinBet : Int64 := 100000

/-- Whether `std::unique` would remove something. -/
def hasAdjacentEqual : List UInt8 → Bool
  | first :: second :: rest =>
      first = second || hasAdjacentEqual (second :: rest)
  | _ => false

/-- `CTransaction::nMinBet * getTotalBer() >= nValue`, negated. -/
def CBet.coversMinBet (bet : CBet) : Except Fault Bool := do
  let total ← bet.getTotalBer
  pure (nMinBet * total.toInt64 < bet.nValue)

/-- `CBet_15_6::IsValid`, with the checks of `CBet::IsValid` at its end. -/
def CBet.isValid15_6 (bet : CBet) : Except Fault Bool :=
  if 15 < bet.vch.length ∨ bet.vch.length < 6 then pure false
  else if bet.vch.any (fun no => 15 < no) then pure false
  else if bet.vch.any (fun no => no < 1) then pure false
  else if bet.vch ≠ sortBytes bet.vch then pure false
  else if hasAdjacentEqual bet.vch then pure false
  else bet.coversMinBet

/--
`CBetMulity::IsValid`.  The bounds on the numbers are one above `READ_MAX_NO`
and `BLUE_MAX_NO`.
-/
def CBet.isValidMulity (bet : CBet) : Except Fault Bool :=
  if bet.vch.length < 7 ∨ 31 < bet.vch.length then pure false
  else
    match bluePart bet.vch with
    | none => pure false
    | some blue =>
        let red := redPart bet.vch
        if red.length < 5 then pure false
        else if blue.length < 2 then pure false
        else if red.any (fun no => 20 + 1 < no) then pure false
        else if red.any (fun no => no < 1) then pure false
        else if blue.any (fun no => 10 + 1 < no) then pure false
        else if blue.any (fun no => no < 1) then pure false
        else if hasAdjacentEqual red ∨
            hasAdjacentEqual (gSplitFlag :: blue) then pure false
        else if red ≠ sortBytes red then pure false
        else if blue ≠ sortBytes blue then pure false
        else bet.coversMinBet

/-- The virtual `IsValid`. -/
def CBet.isValid (bet : CBet) : Except Fault Bool :=
  match bet.type with
  | .type15_6 => bet.isValid15_6
  | .typeMulilt => bet.isValidMulity

/-- `CLotto::IsValid`. -/
def isValid (pLotto : List UInt8) (nValue : Int64) : Except Fault Bool := do
  let bet ← CBet.ofBetData pLotto nValue
  bet.isValid

end DSValue.Lotto.Bet

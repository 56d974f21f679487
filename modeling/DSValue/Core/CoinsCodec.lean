import DSValue.Core.Compress

/-!
# The stored form of coins

`CCoins` is stored as its version, a code, the spentness bits, the outputs
that are left and its height.  The code holds the coinbase flag, the first two
spentness bits and the number of bytes of the other bits that are not zero.
The bits end with the last such byte, and null outputs behind it come back
when the coins are read and are dropped by `Cleanup`.
-/

namespace DSValue.Core.CoinsCodec

open DSValue.Lib.Stream
open DSValue.Core.Serialize
open DSValue.Core.Deserialize
open DSValue.Core.VarInt
open DSValue.Core.Transaction
open DSValue.Core.Compress

/-! ## Spentness bits -/

/-- The number whose bits are the flags. -/
def maskValue : List Bool → Nat
  | [] => 0
  | flag :: flags => (if flag then 1 else 0) + 2 * maskValue flags

/-- The lowest bits of a number. -/
def flagsOf : (width value : Nat) → List Bool
  | 0, _ => []
  | width + 1, value => (value % 2 = 1) :: flagsOf width (value / 2)

/-- The bytes `chAvail` of some flags, eight flags to a byte. -/
def maskBytes : (number : Nat) → List Bool → List UInt8
  | 0, _ => []
  | number + 1, flags =>
      UInt8.ofNat (maskValue (flags.take 8)) :: maskBytes number (flags.drop 8)

/-- Which outputs are left. -/
def availability (coins : CCoins) : List Bool :=
  coins.vout.map fun txout => !txout.isNull

/-- The bytes of the flags behind the first two. -/
def spentnessBytes (coins : CCoins) : List UInt8 :=
  let flags := (availability coins).drop 2
  maskBytes ((flags.length + 7) / 8) flags

/-- The bytes up to the last one that is not zero. -/
def usedBytes (coins : CCoins) : List UInt8 :=
  (spentnessBytes coins).rdropWhile (· = 0)

/-- `CCoins::CalcMaskSize`. -/
def calcMaskSize (coins : CCoins) : Nat × Nat :=
  ((usedBytes coins).length, (spentnessBytes coins).countP (· ≠ 0))

/-- The header code of `CCoins::Serialize`. -/
def headerCode (coins : CCoins) : Nat :=
  let fFirst := (availability coins)[0]? = some true
  let fSecond := (availability coins)[1]? = some true
  8 * ((calcMaskSize coins).2 - (if fFirst ∨ fSecond then 0 else 1)) +
    (if coins.fCoinBase then 1 else 0) + (if fFirst then 2 else 0) +
    (if fSecond then 4 else 0)

/-- `CCoins::Serialize`, for coins that are not pruned. -/
def writeCoins (keys : PubKeyOps) (coins : CCoins) : List UInt8 :=
  writeVarInt32 coins.nVersion ++ writeVarInt 32 (headerCode coins % 2 ^ 32) ++
    usedBytes coins ++
    ((coins.vout.filter fun txout => !txout.isNull).flatMap
      (writeCompressedTxOut keys)) ++
    writeVarInt32 coins.nHeight

/-- The loop of `CCoins::Unserialize` over the spentness bits. -/
def readMaskLoop :
    Nat → List UInt8 → Except StreamError (List Bool × List UInt8)
  | 0, stream => .ok ([], stream)
  | _ + 1, [] => .error .endOfData
  | nMaskCode + 1, chAvail :: rest => do
      let later ←
        readMaskLoop (if chAvail ≠ 0 then nMaskCode else nMaskCode + 1) rest
      pure (flagsOf 8 chAvail.toNat ++ later.1, later.2)

def readMask (nMaskCode : Nat) : Reader (List Bool) := fun stream =>
  readMaskLoop nMaskCode stream

/-- The loop of `CCoins::Unserialize` over the outputs. -/
def readOutputs (keys : PubKeyOps) : List Bool → Reader (List CTxOut)
  | [] => pure []
  | false :: vAvail => do
      let vout ← readOutputs keys vAvail
      pure (CTxOut.null :: vout)
  | true :: vAvail => do
      let txout ← readCompressedTxOut keys
      let vout ← readOutputs keys vAvail
      pure (txout :: vout)

/-- `CCoins::Unserialize`. -/
def readCoins (keys : PubKeyOps) : Reader CCoins := do
  let nVersion ← readVarInt32
  let nCode ← readVarInt 32
  let flags ←
    readMask (nCode / 8 + if nCode / 2 % 4 ≠ 0 then 0 else 1)
  let vout ←
    readOutputs keys
      ((nCode / 2 % 2 = 1) :: (nCode / 4 % 2 = 1) :: flags)
  let nHeight ← readVarInt32
  pure (CCoins.cleanup ⟨nCode % 2 = 1, vout, nHeight, nVersion⟩)

/-! ## Reading the bits back -/

theorem maskValue_lt (flags : List Bool) :
    maskValue flags < 2 ^ flags.length := by
  induction flags with
  | nil => decide
  | cons flag flags inductionHypothesis =>
      rw [maskValue, List.length_cons, Nat.pow_succ]
      split_ifs <;> omega

theorem flagsOf_zero (width : Nat) :
    flagsOf width 0 = List.replicate width false := by
  induction width with
  | zero => rfl
  | succ width inductionHypothesis =>
      rw [flagsOf, List.replicate_succ, Nat.zero_div, inductionHypothesis]
      rfl

/-- A byte gives its flags back, and false behind them. -/
theorem flagsOf_maskValue
    {width : Nat} {flags : List Bool} (within : flags.length ≤ width) :
    flagsOf width (maskValue flags) =
      flags ++ List.replicate (width - flags.length) false := by
  induction flags generalizing width with
  | nil => simp [maskValue, flagsOf_zero]
  | cons flag flags inductionHypothesis =>
      cases width with
      | zero => simp at within
      | succ width =>
          rw [List.length_cons] at within
          have rest :
              ((if flag then 1 else 0) + 2 * maskValue flags) / 2 =
                maskValue flags := by
            split_ifs <;> omega
          have first :
              decide (((if flag then 1 else 0) + 2 * maskValue flags) % 2 =
                1) = flag := by
            cases flag <;> simp
          rw [maskValue, flagsOf, rest, first,
            inductionHypothesis (by omega), List.length_cons,
            Nat.add_sub_add_right, List.cons_append]

theorem toNat_maskByte (flags : List Bool) :
    (UInt8.ofNat (maskValue (flags.take 8))).toNat =
      maskValue (flags.take 8) := by
  have bound := maskValue_lt (flags.take 8)
  have width : 2 ^ (flags.take 8).length ≤ 2 ^ 8 :=
    Nat.pow_le_pow_right (by decide) (by simp)
  exact UInt8.toNat_ofNat_of_lt' (lt_of_lt_of_le bound width)

/-- The bytes give all flags back, and false behind them. -/
theorem flags_maskBytes
    {number : Nat} {flags : List Bool} (within : flags.length ≤ 8 * number) :
    (maskBytes number flags).flatMap (fun byte => flagsOf 8 byte.toNat) =
      flags ++ List.replicate (8 * number - flags.length) false := by
  induction number generalizing flags with
  | zero =>
      have empty : flags = [] := by
        rw [← List.length_eq_zero_iff]
        omega
      rw [empty]
      rfl
  | succ number inductionHypothesis =>
      rw [maskBytes, List.flatMap_cons, toNat_maskByte,
        flagsOf_maskValue (by simp)]
      by_cases short : flags.length ≤ 8
      · have dropped : flags.drop 8 = [] := by simpa using short
        rw [dropped, inductionHypothesis (by simp), List.take_of_length_le short,
          List.nil_append, List.append_assoc, List.replicate_append_replicate]
        congr 2
        simp only [List.length_nil]
        omega
      · have full : (flags.take 8).length = 8 := by
          rw [List.length_take]
          omega
        rw [full, inductionHypothesis (by simp; omega), List.length_drop]
        simp only [Nat.sub_self, List.replicate_zero, List.append_nil]
        rw [← List.append_assoc, List.take_append_drop]
        congr 2
        omega

theorem maskValue_eq_zero
    {flags : List Bool} (isZero : maskValue flags = 0) :
    ∀ flag ∈ flags, flag = false := by
  induction flags with
  | nil => simp
  | cons first flags inductionHypothesis =>
      rw [maskValue] at isZero
      intro flag member
      rcases List.mem_cons.mp member with rfl | later
      · cases flag with
        | false => rfl
        | true => simp at isZero
      · exact inductionHypothesis (by omega) flag later

/-- The last byte holds the last flag. -/
theorem getLast?_maskBytes
    {number : Nat} {flags : List Bool}
    (fits : number = (flags.length + 7) / 8)
    (last : flags.getLast? = some true) :
    ∃ byte, (maskBytes number flags).getLast? = some byte ∧ byte ≠ 0 := by
  induction number generalizing flags with
  | zero =>
      have empty : flags = [] := by
        rw [← List.length_eq_zero_iff]
        omega
      rw [empty] at last
      cases last
  | succ number inductionHypothesis =>
      rw [maskBytes]
      by_cases short : flags.length ≤ 8
      · have zero : number = 0 := by omega
        rw [zero, maskBytes]
        refine ⟨UInt8.ofNat (maskValue (flags.take 8)), rfl, ?_⟩
        intro isZero
        have value := toNat_maskByte flags
        rw [isZero] at value
        have none :=
          maskValue_eq_zero value.symm true
            (by
              rw [List.take_of_length_le short]
              exact List.mem_of_getLast? last)
        cases none
      · have later : (flags.drop 8).getLast? = some true := by
          rw [List.getLast?_drop, if_neg (by omega)]
          exact last
        rcases inductionHypothesis (by simp; omega) later with
          ⟨byte, atEnd, nonzero⟩
        refine ⟨byte, ?_, nonzero⟩
        rw [List.getLast?_cons, atEnd]
        rfl

theorem readMaskLoop_append
    {bytes : List UInt8} (rest : List UInt8)
    (ends : ∀ byte, bytes.getLast? = some byte → byte ≠ 0) :
    readMaskLoop (bytes.countP (· ≠ 0)) (bytes ++ rest) =
      .ok (bytes.flatMap (fun byte => flagsOf 8 byte.toNat), rest) := by
  induction bytes with
  | nil => simp [readMaskLoop]
  | cons byte bytes inductionHypothesis =>
      have later :
          ∀ last, bytes.getLast? = some last → last ≠ 0 := by
        intro last atEnd
        apply ends
        rw [List.getLast?_cons, atEnd]
        rfl
      have tail := inductionHypothesis later
      have positive : 0 < (byte :: bytes).countP (· ≠ 0) := by
        rcases List.getLast?_isSome.mpr (List.cons_ne_nil byte bytes) |>
          Option.isSome_iff_exists.mp with ⟨last, atEnd⟩
        rw [List.countP_pos_iff]
        exact ⟨last, List.mem_of_getLast? atEnd, by simpa using ends last atEnd⟩
      have count :
          (if byte ≠ 0 then (byte :: bytes).countP (· ≠ 0) - 1
            else (byte :: bytes).countP (· ≠ 0)) = bytes.countP (· ≠ 0) := by
        rw [List.countP_cons]
        split_ifs <;> simp_all
      rcases Nat.exists_eq_succ_of_ne_zero (Nat.ne_of_gt positive) with
        ⟨nMaskCode, isCode⟩
      rw [isCode] at count ⊢
      rw [List.cons_append, readMaskLoop]
      rw [Nat.succ_eq_add_one, Nat.add_sub_cancel] at count
      rw [count, tail]
      rfl

/-! ## The round trip -/

/-- Coins that the stored form can hold. -/
structure Storable (coins : CCoins) : Prop where
  version : 0 ≤ coins.nVersion
  height : 0 ≤ coins.nHeight
  outputs : ∀ txout ∈ coins.vout, txout = CTxOut.null ∨ Compressible txout
  number : coins.vout.length < 2 ^ 31
  clean : ∃ last, coins.vout.getLast? = some last ∧ last.isNull = false

/-- Coins whose header code has 32 bits. -/
structure Codable (coins : CCoins) : Prop where
  version : 0 ≤ coins.nVersion
  height : 0 ≤ coins.nHeight
  outputs : ∀ txout ∈ coins.vout, txout = CTxOut.null ∨ Compressible txout
  number : coins.vout.length < 2 ^ 32 - 5
  clean : ∃ last, coins.vout.getLast? = some last ∧ last.isNull = false

theorem Storable.codable {coins : CCoins} (storable : Storable coins) :
    Codable coins :=
  ⟨storable.version, storable.height, storable.outputs,
    lt_trans storable.number (by decide), storable.clean⟩

theorem isNull_of_compressible
    {txout : CTxOut} (compressible : Compressible txout) :
    txout.isNull = false := by
  have range := compressible.range
  simp only [moneyRange, decide_eq_true_eq] at range
  apply decide_eq_false
  intro isNull
  rw [isNull] at range
  exact absurd range.1 (by decide)

theorem getLast?_availability
    {coins : CCoins} (codable : Codable coins) :
    (availability coins).getLast? = some true := by
  rcases codable.clean with ⟨last, atEnd, nonNull⟩
  rw [availability, List.getLast?_map, atEnd]
  simp [nonNull]

/-- The spentness bytes end with one that is not zero. -/
theorem getLast?_spentnessBytes
    {coins : CCoins} (codable : Codable coins) :
    (∃ byte, (spentnessBytes coins).getLast? = some byte ∧ byte ≠ 0) ∨
      (availability coins).length ≤ 2 ∧ spentnessBytes coins = [] := by
  by_cases short : (availability coins).length ≤ 2
  · right
    have dropped : (availability coins).drop 2 = [] := by simpa using short
    refine ⟨short, ?_⟩
    simp only [spentnessBytes, dropped]
    rfl
  · left
    apply getLast?_maskBytes rfl
    rw [List.getLast?_drop, if_neg (by omega)]
    exact getLast?_availability codable

theorem usedBytes_eq
    {coins : CCoins} (codable : Codable coins) :
    usedBytes coins = spentnessBytes coins := by
  rw [usedBytes, List.rdropWhile_eq_self_iff]
  intro nonempty
  rcases getLast?_spentnessBytes codable with
    ⟨byte, atEnd, nonzero⟩ | ⟨-, empty⟩
  · rw [List.getLast?_eq_some_getLast nonempty, Option.some.injEq] at atEnd
    rw [atEnd]
    simpa using nonzero
  · exact absurd empty nonempty

/-- The flags come back, with false behind them. -/
theorem flags_of_bytes
    {coins : CCoins} (codable : Codable coins) :
    ∃ padding,
      decide ((availability coins)[0]? = some true) ::
          decide ((availability coins)[1]? = some true) ::
          (spentnessBytes coins).flatMap
            (fun byte => flagsOf 8 byte.toNat) =
        availability coins ++ List.replicate padding false := by
  have last := getLast?_availability codable
  rw [spentnessBytes]
  generalize availability coins = flags at last ⊢
  rcases flags with _ | ⟨first, _ | ⟨second, rest⟩⟩
  · cases last
  · refine ⟨1, ?_⟩
    cases first <;> rfl
  · refine ⟨8 * ((rest.length + 7) / 8) - rest.length, ?_⟩
    simp only [List.drop_succ_cons, List.drop_zero]
    rw [flags_maskBytes (by omega)]
    cases first <;> cases second <;> rfl

theorem reads_readOutputs
    {keys : PubKeyOps} (recovers : keys.Recovers) {vout : List CTxOut}
    (outputs : ∀ txout ∈ vout, txout = CTxOut.null ∨ Compressible txout)
    (padding : Nat) :
    Reads
      (readOutputs keys
        ((vout.map fun txout => !txout.isNull) ++
          List.replicate padding false))
      ((vout.filter fun txout => !txout.isNull).flatMap
        (writeCompressedTxOut keys))
      (vout ++ List.replicate padding CTxOut.null) := by
  induction vout with
  | nil =>
      simp only [List.map_nil, List.nil_append, List.filter_nil,
        List.flatMap_nil]
      induction padding with
      | zero => exact Reads.pure []
      | succ padding inductionHypothesis =>
          rw [List.replicate_succ, List.replicate_succ, readOutputs,
            ← List.nil_append []]
          exact inductionHypothesis.bind (Reads.pure _)
  | cons txout vout inductionHypothesis =>
      have later :=
        inductionHypothesis fun other member =>
          outputs other (List.mem_cons_of_mem _ member)
      rcases outputs txout (by simp) with rfl | compressible
      · have isNull : (!CTxOut.null.isNull) = false := rfl
        rw [List.map_cons, isNull, List.cons_append, List.filter_cons,
          isNull, if_neg (by simp), readOutputs,
          ← List.append_nil (List.flatMap _ _)]
        exact later.bind (Reads.pure _)
      · have isNull : (!txout.isNull) = true := by
          rw [isNull_of_compressible compressible]
          rfl
        rw [List.map_cons, isNull, List.cons_append, List.filter_cons,
          isNull, if_pos rfl, readOutputs, List.flatMap_cons]
        refine (reads_readCompressedTxOut recovers compressible).bind ?_
        rw [← List.append_nil (List.flatMap _ _)]
        exact later.bind (Reads.pure _)

/-- What the header code says. -/
structure SpellsHeader (coins : CCoins) (nCode : Nat) : Prop where
  fits : nCode < 2 ^ 32
  coinBase : decide (nCode % 2 = 1) = coins.fCoinBase
  first :
    decide (nCode / 2 % 2 = 1) =
      decide ((availability coins)[0]? = some true)
  second :
    decide (nCode / 4 % 2 = 1) =
      decide ((availability coins)[1]? = some true)
  mask :
    (nCode / 8 + if nCode / 2 % 4 ≠ 0 then 0 else 1) =
      (spentnessBytes coins).countP (· ≠ 0)

theorem length_maskBytes (number : Nat) (flags : List Bool) :
    (maskBytes number flags).length = number := by
  induction number generalizing flags with
  | zero => rfl
  | succ number inductionHypothesis =>
      rw [maskBytes, List.length_cons, inductionHypothesis]

/-- The digits of a header code. -/
theorem headerCode_digits
    {number coinBase first second nCode : Nat}
    (isCoinBase : coinBase ≤ 1) (isFirst : first ≤ 1) (isSecond : second ≤ 1)
    (code : nCode = 8 * number + coinBase + 2 * first + 4 * second) :
    nCode % 2 = coinBase ∧ nCode / 2 % 2 = first ∧ nCode / 4 % 2 = second ∧
      nCode / 8 = number ∧ nCode / 2 % 4 = first + 2 * second := by
  omega

theorem spellsHeader_headerCode
    {coins : CCoins} (codable : Codable coins) :
    SpellsHeader coins (headerCode coins) := by
  have number : (spentnessBytes coins).countP (· ≠ 0) < 2 ^ 29 := by
    have bytes :
        (spentnessBytes coins).length = (coins.vout.length - 2 + 7) / 8 := by
      simp only [spentnessBytes, length_maskBytes, List.length_drop,
        availability, List.length_map]
    have count : (spentnessBytes coins).countP (· ≠ 0) ≤ _ :=
      List.countP_le_length
    have outputs := codable.number
    omega
  have nonzero :
      (availability coins)[0]? ≠ some true →
        (availability coins)[1]? ≠ some true →
          0 < (spentnessBytes coins).countP (· ≠ 0) := by
    intro notFirst notSecond
    rcases getLast?_spentnessBytes codable with
      ⟨byte, atEnd, nonzero⟩ | ⟨short, -⟩
    · rw [List.countP_pos_iff]
      exact ⟨byte, List.mem_of_getLast? atEnd, by simpa using nonzero⟩
    · have last := getLast?_availability codable
      generalize availability coins = flags at notFirst notSecond short last
      rcases flags with _ | ⟨first, _ | ⟨second, _ | ⟨_, _⟩⟩⟩
      · cases last
      · exact absurd last (by simpa using notFirst)
      · exact absurd last (by simpa using notSecond)
      · simp at short
  generalize isCount : (spentnessBytes coins).countP (· ≠ 0) = count
    at number nonzero
  generalize isFirst : decide ((availability coins)[0]? = some true) = first
  generalize isSecond : decide ((availability coins)[1]? = some true) = second
  have code :
      headerCode coins =
        8 * (count - if first ∨ second then 0 else 1) +
          coins.fCoinBase.toNat + 2 * first.toNat + 4 * second.toNat := by
    have firstIff :
        (availability coins)[0]? = some true ↔ first = true := by
      rw [← isFirst, decide_eq_true_eq]
    have secondIff :
        (availability coins)[1]? = some true ↔ second = true := by
      rw [← isSecond, decide_eq_true_eq]
    simp only [headerCode, calcMaskSize, isCount, firstIff, secondIff]
    cases first <;> cases second <;> cases coins.fCoinBase <;> rfl
  rcases headerCode_digits (Bool.toNat_le _) (Bool.toNat_le _)
      (Bool.toNat_le _) code with
    ⟨coinBaseDigit, firstDigit, secondDigit, numberDigits, maskDigit⟩
  have isBit : ∀ flag : Bool, decide (flag.toNat = 1) = flag := by decide
  have positive : first = false → second = false → 0 < count := by
    intro noFirst noSecond
    exact nonzero (of_decide_eq_false (isFirst.trans noFirst))
      (of_decide_eq_false (isSecond.trans noSecond))
  constructor
  case fits =>
    have coinBaseBit := Bool.toNat_le coins.fCoinBase
    have firstBit := Bool.toNat_le first
    have secondBit := Bool.toNat_le second
    omega
  case coinBase => rw [coinBaseDigit, isBit]
  case first => rw [firstDigit, isBit, isFirst]
  case second => rw [secondDigit, isBit, isSecond]
  case mask =>
    rw [numberDigits, maskDigit, isCount]
    cases first with
    | true => simp
    | false =>
        cases second with
        | true => simp
        | false =>
            have some := positive rfl rfl
            simp only [Bool.false_eq_true, or_self, if_false, Bool.toNat_false]
            simp
            omega

/--
`CCoins::Unserialize` gives the outputs back, and what it takes from the bytes
of the version and of the height.
-/
theorem reads_readCoins_of_fields
    {keys : PubKeyOps} (recovers : keys.Recovers) {coins : CCoins}
    (codable : Codable coins) {nVersion nHeight version height : Int32}
    (readsVersion : Reads readVarInt32 (writeVarInt32 nVersion) version)
    (readsHeight : Reads readVarInt32 (writeVarInt32 nHeight) height) :
    Reads (readCoins keys)
      (writeCoins keys { coins with nVersion := nVersion, nHeight := nHeight })
      { coins with nVersion := version, nHeight := height } := by
  have header := spellsHeader_headerCode codable
  have ends :
      ∀ byte, (spentnessBytes coins).getLast? = some byte → byte ≠ 0 := by
    intro byte atEnd
    rcases getLast?_spentnessBytes codable with
      ⟨last, atLast, nonzero⟩ | ⟨-, empty⟩
    · rw [atEnd] at atLast
      cases atLast
      exact nonzero
    · rw [empty] at atEnd
      cases atEnd
  rcases flags_of_bytes codable with ⟨padding, flags⟩
  have cleaned :
      (coins.vout ++ List.replicate padding CTxOut.null).rdropWhile
        CTxOut.isNull = coins.vout := by
    rcases codable.clean with ⟨last, atEnd, nonNull⟩
    rw [rdropWhile_append_null, rdropWhile_of_getLast? atEnd nonNull]
  show Reads _ (writeVarInt32 nVersion ++
    writeVarInt 32 (headerCode coins % 2 ^ 32) ++ usedBytes coins ++ _ ++
      writeVarInt32 nHeight) _
  rw [Nat.mod_eq_of_lt header.fits, usedBytes_eq codable, List.append_assoc,
    List.append_assoc, List.append_assoc]
  refine readsVersion.bind ?_
  refine (reads_readVarInt (by decide) header.fits).bind ?_
  rw [header.mask]
  refine Reads.bind (readMaskLoop_append · ends) ?_
  rw [header.first, header.second, flags]
  refine (reads_readOutputs recovers codable.outputs padding).bind ?_
  rw [← List.append_nil (writeVarInt32 nHeight)]
  refine readsHeight.bind ?_
  rw [CCoins.cleanup, header.coinBase]
  simp only [cleaned]
  exact Reads.pure _

/-- `CCoins::Unserialize` gives coins back. -/
theorem reads_readCoins_of_codable
    {keys : PubKeyOps} (recovers : keys.Recovers) {coins : CCoins}
    (codable : Codable coins) :
    Reads (readCoins keys) (writeCoins keys coins) coins :=
  reads_readCoins_of_fields recovers codable
    (reads_readVarInt32 codable.version) (reads_readVarInt32 codable.height)

theorem reads_readCoins
    {keys : PubKeyOps} (recovers : keys.Recovers) {coins : CCoins}
    (storable : Storable coins) :
    Reads (readCoins keys) (writeCoins keys coins) coins :=
  reads_readCoins_of_codable recovers storable.codable

end DSValue.Core.CoinsCodec
